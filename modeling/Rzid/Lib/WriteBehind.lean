import Mathlib.Logic.Function.Basic
import Mathlib.Logic.Relation
import Mathlib.Order.Basic

/-!
# Write-behind persistence

A store kept in memory, saved to a file by a dirty flag. Two locks protect it, one
for the memory and one for the flag, and any number of tasks take part.

* A *mutator* changes the memory under the data lock, releases it, and, if it has
  changed what has to be saved, takes the dirty lock and sets the flag.
* A *persist* holds the dirty lock throughout. If the flag is set, it copies the
  memory under the data lock, writes the copy to a temporary file, renames this to
  the file of the store, and clears the flag; if writing or renaming fails, it
  leaves the flag set.

The tasks run in any order, each making one step at a time (`Step`), and the
process may be killed at any moment and started again (`Next`). What has to be
saved is the `view` of the memory.

* If the flag is clear and no reported change is still to be flagged, the file holds
  the view of the memory (`Reachable.saved`).
* The file never holds more than the memory (`Inv.le_file`): views are ordered by
  age.
* What holds of the view of the memory from some time on, and of the file and the
  copies at that time, holds of the file from then on (`Keeps.step`).
* A property of the memory that its changes keep, and that goes through the file,
  holds throughout (`Stable.run`).
-/

/-- A store, and what its file is for. -/
structure WriteBehind (M S F V : Type) [Preorder V] where
  /-- A locked section can take the memory from one value to another, and report
      a change or not. -/
  Mutates : M → M → Bool → Prop
  /-- The copy of the memory that is saved. -/
  snapshot : M → S
  /-- The content of the file that holds a copy. -/
  encode : S → F
  /-- A start on a file, or without one, can build this memory. -/
  Starts : Option F → M → Prop
  /-- What has to be saved of the memory. -/
  view : M → V
  /-- What the file holds of it. -/
  viewFile : Option F → V
  view_unreported {m m' : M} : Mutates m m' false → view m' = view m
  view_reported {m m' : M} : Mutates m m' true → view m < view m'
  viewFile_encode (m : M) : viewFile (some (encode (snapshot m))) = view m
  view_start {file : Option F} {m : M} : Starts file m → view m = viewFile file

namespace WriteBehind

/-! ## Steps -/

/-- Where a task is. -/
inductive Pc (S : Type)
  | idle
  /-- A mutator that holds the data lock. -/
  | mutating
  /-- A mutator that has made its change, and still holds the data lock. -/
  | mutated (reported : Bool)
  /-- A mutator that is to set the flag, and holds no lock. -/
  | marking
  /-- A mutator that holds the dirty lock. -/
  | markLocked
  /-- A mutator that has set the flag, and still holds the dirty lock. -/
  | marked
  /-- A persist that holds the dirty lock, as from here on. -/
  | persisting
  /-- A persist that has found the flag set. -/
  | snapshotting
  /-- A persist that also holds the data lock, for reading. -/
  | copying
  /-- A persist that has copied the memory, and still holds the data lock. -/
  | copied (copy : S)
  /-- A persist that has released the data lock. -/
  | snapshotted (copy : S)
  /-- A persist that has begun to write the temporary file. -/
  | writing (copy : S)
  /-- A persist that has written the temporary file. -/
  | written (copy : S)
  /-- A persist that has renamed the temporary file to the file. -/
  | renamed
  /-- A persist that has cleared the flag. -/
  | cleared
  /-- A persist that has failed to write or to rename. -/
  | failed

namespace Pc

variable {S F : Type}

/-- The task holds the data lock for writing. -/
def WritesData : Pc S → Prop
  | mutating | mutated _ => True
  | _ => False

/-- The task holds the data lock. -/
def HoldsData : Pc S → Prop
  | mutating | mutated _ | copying | copied _ => True
  | _ => False

/-- The task holds the dirty lock. -/
def HoldsDirty : Pc S → Prop
  | idle | mutating | mutated _ | marking => False
  | _ => True

/-- Two tasks hold a lock that excludes the other. -/
def Conflicts (p q : Pc S) : Prop :=
  (p.HoldsDirty ∧ q.HoldsDirty) ∨ (p.WritesData ∧ q.HoldsData) ∨ (p.HoldsData ∧ q.WritesData)

/-- The task has made a change that it has to flag, and has not flagged it. -/
def Pending : Pc S → Prop
  | mutated true | marking | markLocked => True
  | _ => False

/-- The task is a persist that has found the flag set, and has not cleared it. -/
def Flushing : Pc S → Prop
  | snapshotting | copying | copied _ | snapshotted _ | writing _ | written _ | renamed
  | failed => True
  | _ => False

/-- What the file will be when the persist clears the flag, once it has its copy. -/
def target (encode : S → F) (file : Option F) : Pc S → Option (Option F)
  | copied copy | snapshotted copy | writing copy | written copy => some (some (encode copy))
  | renamed => some file
  | _ => none

end Pc

/-- What the tasks share, apart from the locks: the memory, the flag, the file and
    the temporary file. -/
structure Shared (M F : Type) where
  mem : M
  dirty : Bool
  file : Option F
  tmp : Option F

/-- A state of the store: what the tasks share, and where they are. -/
structure Config (T M S F : Type) extends Shared M F where
  pc : T → Pc S

/-- The state in which the task `t` has moved. -/
def Config.move {T M S F : Type} [DecidableEq T] (c : Config T M S F) (t : T) (s : Shared M F)
    (p : Pc S) : Config T M S F :=
  { s with pc := Function.update c.pc t p }

section Move

variable {T M S F : Type} [DecidableEq T] (c : Config T M S F) (t : T) (s : Shared M F) (p : Pc S)

@[simp] theorem Config.move_toShared : (c.move t s p).toShared = s := rfl

@[simp] theorem Config.move_pc_self : (c.move t s p).pc t = p := Function.update_self ..

@[simp] theorem Config.move_pc_of_ne {u : T} (h : u ≠ t) : (c.move t s p).pc u = c.pc u :=
  Function.update_of_ne h ..

@[simp] theorem Config.move_move (s' : Shared M F) (p' : Pc S) :
    (c.move t s p).move t s' p' = c.move t s' p' := by
  rw [move, move, move, Function.update_idem]

@[simp] theorem Config.move_self : c.move t c.toShared (c.pc t) = c := by
  rw [move, Function.update_eq_self]

end Move

/-- What a step does besides moving a task. -/
inductive Event
  | silent
  /-- A change of the memory, reported or not. -/
  | change (reported : Bool)
  /-- A copy of the memory by a persist. -/
  | copy
  /-- A rename of the temporary file to the file. -/
  | rename
  /-- A failure of a persist. -/
  | fail
  deriving DecidableEq

variable {T M S F V : Type} [Preorder V] (w : WriteBehind M S F V)

/-- The steps of a task, from one place to the next. -/
inductive Local : Shared M F → Pc S → Event → Shared M F → Pc S → Prop
  | lockData {s} : Local s .idle .silent s .mutating
  | change {s m reported} (h : w.Mutates s.mem m reported) :
    Local s .mutating (.change reported) { s with mem := m } (.mutated reported)
  | unlockData {s} : Local s (.mutated true) .silent s .marking
  | unlockUnchanged {s} : Local s (.mutated false) .silent s .idle
  | lockMark {s} : Local s .marking .silent s .markLocked
  | mark {s} : Local s .markLocked .silent { s with dirty := true } .marked
  | unlockMark {s} : Local s .marked .silent s .idle
  | lockPersist {s} : Local s .idle .silent s .persisting
  /-- The flag is clear: the persist has nothing to do. -/
  | clean {s} (h : s.dirty = false) : Local s .persisting .silent s .idle
  | found {s} (h : s.dirty = true) : Local s .persisting .silent s .snapshotting
  | lockSnapshot {s} : Local s .snapshotting .silent s .copying
  | copy {s} : Local s .copying .copy s (.copied (w.snapshot s.mem))
  | unlockSnapshot {s copy} : Local s (.copied copy) .silent s (.snapshotted copy)
  /-- The temporary file is created, and possibly written in part. -/
  | create {s copy} (content : Option F) :
    Local s (.snapshotted copy) .silent { s with tmp := content } (.writing copy)
  | write {s copy} :
    Local s (.writing copy) .silent { s with tmp := some (w.encode copy) } (.written copy)
  | rename {s copy} :
    Local s (.written copy) .rename { s with file := s.tmp, tmp := none } .renamed
  | clear {s} : Local s .renamed .silent { s with dirty := false } .cleared
  | unlockPersist {s} : Local s .cleared .silent s .idle
  | failEncode {s copy} : Local s (.snapshotted copy) .fail s .failed
  | failWrite {s copy} (content : Option F) :
    Local s (.writing copy) .fail { s with tmp := content } .failed
  | failRename {s copy} : Local s (.written copy) .fail s .failed
  | unlockFailed {s} : Local s .failed .silent s .idle

variable [DecidableEq T]

/-- A step of the task `t`: it takes a lock only if no other task holds one that
    excludes it. -/
inductive Step (c : Config T M S F) (t : T) (e : Event) : Config T M S F → Prop
  | mk {p p' : Pc S} {s' : Shared M F} (hp : c.pc t = p) (hlocal : w.Local c.toShared p e s' p')
    (hfree : ∀ u, u ≠ t → ¬(c.pc u).Conflicts p') :
    Step c t e (c.move t s' p')

omit [DecidableEq T] in
/-- A start: the memory is built from the file, the flag is clear, and no task has
    begun. -/
structure Init (c : Config T M S F) : Prop where
  starts : w.Starts c.file c.mem
  dirty : c.dirty = false
  idle (t : T) : c.pc t = .idle

/-- What can happen next: a step of a task, or a kill and a start on the file that
    is left. -/
def Next (c c' : Config T M S F) : Prop :=
  (∃ t e, w.Step c t e c') ∨ (w.Init c' ∧ c'.file = c.file)

/-- The states that the store can be in. -/
inductive Reachable : Config T M S F → Prop
  | init {c} (h : w.Init c) : Reachable c
  | next {c c'} (h : Reachable c) (hnext : w.Next c c') : Reachable c'

/-! ## What a step does -/

namespace Local

variable {w} {s s' : Shared M F} {p p' : Pc S} {e : Event}

/-- Only a mutator with the data lock changes the memory. -/
theorem mem (h : w.Local s p e s' p') :
    s'.mem = s.mem ∨
      ∃ reported, p = .mutating ∧ p' = .mutated reported ∧ e = .change reported ∧
        w.Mutates s.mem s'.mem reported := by
  cases h with
  | change h => exact .inr ⟨_, rfl, rfl, rfl, h⟩
  | _ => exact .inl rfl

/-- Only a rename changes the file, and it makes it the temporary file. -/
theorem file (h : w.Local s p e s' p') :
    (s'.file = s.file ∧ e ≠ .rename) ∨
      ∃ copy, p = .written copy ∧ p' = .renamed ∧ e = .rename ∧ s'.file = s.tmp := by
  cases h with
  | rename => exact .inr ⟨_, rfl, rfl, rfl, rfl⟩
  | _ => exact .inl ⟨rfl, nofun⟩

/-- Only a mutator with the dirty lock sets the flag, and only a persist that has
    renamed clears it. -/
theorem dirty (h : w.Local s p e s' p') :
    s'.dirty = s.dirty ∨ (p = .markLocked ∧ p' = .marked ∧ s'.dirty = true) ∨
      (p = .renamed ∧ p' = .cleared ∧ s'.dirty = false) := by
  cases h with
  | mark => exact .inr (.inl ⟨rfl, rfl, rfl⟩)
  | clear => exact .inr (.inr ⟨rfl, rfl, rfl⟩)
  | _ => exact .inl rfl

/-- Only a persist changes the temporary file, and it has written it last. -/
theorem tmp (h : w.Local s p e s' p') :
    (s'.tmp = s.tmp ∧ ∀ copy, p' ≠ .written copy) ∨
      (p.HoldsDirty ∧ ∀ copy, p' = .written copy → s'.tmp = some (w.encode copy)) := by
  cases h with
  | write => exact .inr ⟨trivial, fun _ h => by cases h; rfl⟩
  | create => exact .inr ⟨trivial, nofun⟩
  | rename => exact .inr ⟨trivial, nofun⟩
  | failWrite => exact .inr ⟨trivial, nofun⟩
  | _ => exact .inl ⟨rfl, nofun⟩

/-- A change to flag stays one until it is flagged. -/
theorem pending (h : w.Local s p e s' p') (hp : p.Pending) :
    p'.Pending ∨ (p = .markLocked ∧ s'.dirty = true) := by
  cases h with
  | unlockData => exact .inl trivial
  | lockMark => exact .inl trivial
  | mark => exact .inr ⟨rfl, rfl⟩
  | _ => exact hp.elim

/-- A persist goes on only if it has found the flag set. -/
theorem flushing (h : w.Local s p e s' p') (hp : p'.Flushing) :
    p.Flushing ∨ (p = .persisting ∧ s.dirty = true) := by
  cases h with
  | found h => exact .inr ⟨rfl, h⟩
  | _ => first | exact .inl trivial | exact hp.elim

theorem copy_pc (h : w.Local s p .copy s' p') : p = .copying := by
  cases h
  rfl

/-- A persist takes its copy of the memory at one instant, and keeps it; a rename
    makes it the file. -/
theorem target (h : w.Local s p e s' p')
    (htmp : ∀ copy, p = .written copy → s.tmp = some (w.encode copy)) {f : Option F}
    (hf : p'.target w.encode s'.file = some f) :
    (p.target w.encode s.file = some f ∧ e ≠ .copy) ∨
      (p = .copying ∧ e = .copy ∧ s'.mem = s.mem ∧ f = some (w.encode (w.snapshot s.mem))) := by
  cases h with
  | copy => exact .inr ⟨rfl, rfl, rfl, (Option.some_inj.1 hf).symm⟩
  | rename => exact .inl ⟨(congrArg some (htmp _ rfl)).symm.trans hf, nofun⟩
  | unlockSnapshot => exact .inl ⟨hf, nofun⟩
  | create => exact .inl ⟨hf, nofun⟩
  | write => exact .inl ⟨hf, nofun⟩
  | _ => cases hf

end Local

/-! ## Invariants -/

namespace Pc

variable {p q : Pc S}

theorem Conflicts.symm (h : p.Conflicts q) : q.Conflicts p := by
  rcases h with h | h | h
  · exact .inl h.symm
  · exact .inr (.inr h.symm)
  · exact .inr (.inl h.symm)

theorem Flushing.holdsDirty (h : p.Flushing) : p.HoldsDirty := by
  cases p <;> first | exact trivial | exact h.elim

theorem holdsDirty_of_target {encode : S → F} {file f : Option F}
    (h : p.target encode file = some f) : p.HoldsDirty := by
  cases p <;> first | exact trivial | cases h

end Pc

omit [DecidableEq T] in
/-- What the locks guarantee in every state. -/
structure Locked (c : Config T M S F) : Prop where
  exclusive {t u : T} : t ≠ u → ¬(c.pc t).Conflicts (c.pc u)
  /-- The flag is set while a persist saves. -/
  flagged {t : T} : (c.pc t).Flushing → c.dirty = true
  tmp {t : T} {copy : S} : c.pc t = .written copy → c.tmp = some (w.encode copy)

omit [DecidableEq T] in
/-- What holds in every state. -/
structure Inv (c : Config T M S F) : Prop where
  exclusive {t u : T} : t ≠ u → ¬(c.pc t).Conflicts (c.pc u)
  /-- The flag is set while a persist saves. -/
  flagged {t : T} : (c.pc t).Flushing → c.dirty = true
  tmp {t : T} {copy : S} : c.pc t = .written copy → c.tmp = some (w.encode copy)
  /-- The file and the copies are not ahead of the memory. -/
  le_file : w.viewFile c.file ≤ w.view c.mem
  le_target {t : T} {f : Option F} :
    (c.pc t).target w.encode c.file = some f → w.viewFile f ≤ w.view c.mem
  /-- Unless a change is to be flagged, the flag and the copies are right. -/
  saved : (∀ t, ¬(c.pc t).Pending) → c.dirty = false → w.viewFile c.file = w.view c.mem
  target : (∀ t, ¬(c.pc t).Pending) → ∀ {t : T} {f : Option F},
    (c.pc t).target w.encode c.file = some f → w.viewFile f = w.view c.mem

variable {w} {c c' : Config T M S F}

omit [DecidableEq T] in
/-- Only one task holds the dirty lock. -/
theorem Locked.eq_of_holdsDirty (h : w.Locked c) {t u : T} (ht : (c.pc t).HoldsDirty)
    (hu : (c.pc u).HoldsDirty) : t = u := by
  by_contra hne
  exact h.exclusive hne (.inl ⟨ht, hu⟩)

omit [DecidableEq T] in
theorem Inv.locked (h : w.Inv c) : w.Locked c := ⟨h.exclusive, h.flagged, h.tmp⟩

omit [DecidableEq T] in
theorem Init.locked (h : w.Init c) : w.Locked c where
  exclusive _ hc := by
    rw [h.idle, h.idle] at hc
    rcases hc with hc | hc | hc <;> exact hc.1
  flagged hp := by rw [h.idle] at hp; exact hp.elim
  tmp hp := by rw [h.idle] at hp; cases hp

omit [DecidableEq T] in
theorem Init.inv (h : w.Init c) : w.Inv c where
  exclusive := h.locked.exclusive
  flagged := h.locked.flagged
  tmp := h.locked.tmp
  le_file := (w.view_start h.starts).ge
  le_target hf := by rw [h.idle] at hf; cases hf
  saved _ _ := (w.view_start h.starts).symm
  target _ _ _ hf := by rw [h.idle] at hf; cases hf

/-- A step lets the view of the memory grow. -/
theorem Local.view_le {s s' : Shared M F} {p p' : Pc S} {e : Event} (h : w.Local s p e s' p') :
    w.view s.mem ≤ w.view s'.mem := by
  rcases h.mem with hmem | ⟨reported, _, _, _, hm⟩
  · rw [hmem]
  · cases reported
    · exact (w.view_unreported hm).ge
    · exact (w.view_reported hm).le

/-- A step keeps the view of the memory, unless it leaves a change to flag. -/
theorem Local.view_eq {s s' : Shared M F} {p p' : Pc S} {e : Event} (h : w.Local s p e s' p')
    (hp' : ¬p'.Pending) : w.view s'.mem = w.view s.mem := by
  rcases h.mem with hmem | ⟨reported, _, rfl, _, hm⟩
  · rw [hmem]
  · cases reported
    · exact w.view_unreported hm
    · exact absurd trivial hp'

/-- After a step, what a persist will make of the file is what it was before, or the
    copy that the step has made. -/
theorem Locked.target_move (h : w.Locked c) {t u : T} {e : Event} {s' : Shared M F} {p' : Pc S}
    (hlocal : w.Local c.toShared (c.pc t) e s' p') {f : Option F}
    (hf : ((c.move t s' p').pc u).target w.encode s'.file = some f) :
    ((c.pc u).target w.encode c.file = some f ∧ e ≠ .copy) ∨
      (e = .copy ∧ s'.mem = c.mem ∧ f = some (w.encode (w.snapshot c.mem))) := by
  by_cases hut : u = t
  · subst hut
    rw [c.move_pc_self] at hf
    exact (hlocal.target (fun _ => h.tmp) hf).imp id fun hcopy => hcopy.2
  · rw [c.move_pc_of_ne _ _ _ hut] at hf
    rcases hlocal.file with ⟨hfile, _⟩ | ⟨copy, hp, _, he, _⟩
    · rw [hfile] at hf
      refine .inl ⟨hf, ?_⟩
      -- Only the task with the dirty lock makes a copy.
      rintro rfl
      exact hut (h.eq_of_holdsDirty (Pc.holdsDirty_of_target hf) (by rw [hlocal.copy_pc]; trivial))
    · refine absurd (h.eq_of_holdsDirty (Pc.holdsDirty_of_target hf) (u := t) ?_) hut
      rw [hp]
      trivial

omit [DecidableEq T] in
/-- A step keeps the file, or makes it what the persist was to make it. -/
theorem Locked.file_or_target (h : w.Locked c) {t : T} {e : Event} {s' : Shared M F} {p' : Pc S}
    (hlocal : w.Local c.toShared (c.pc t) e s' p') :
    (s'.file = c.file ∧ e ≠ .rename) ∨
      ((c.pc t).target w.encode c.file = some s'.file ∧ e = .rename) := by
  rcases hlocal.file with hfile | ⟨copy, hp, _, he, hfile⟩
  · exact .inl hfile
  · refine .inr ⟨?_, he⟩
    rw [hfile, h.tmp hp, hp]
    rfl

/-- A step keeps what the locks guarantee. -/
theorem Locked.step {t : T} {e : Event} (h : w.Locked c) (hstep : w.Step c t e c') :
    w.Locked c' := by
  obtain ⟨rfl, hlocal, hfree⟩ := hstep
  rename_i p' s'
  constructor
  case exclusive =>
    -- The moved task has taken its locks only if they were free.
    intro a b hab
    by_cases ha : a = t <;> by_cases hb : b = t
    · exact absurd (ha.trans hb.symm) hab
    · rw [ha, c.move_pc_self, c.move_pc_of_ne _ _ _ hb]
      exact fun hc => hfree b hb hc.symm
    · rw [hb, c.move_pc_self, c.move_pc_of_ne _ _ _ ha]
      exact hfree a ha
    · rw [c.move_pc_of_ne _ _ _ ha, c.move_pc_of_ne _ _ _ hb]
      exact h.exclusive hab
  case flagged =>
    -- The flag is only cleared by a task that then holds no copy.
    intro u hu
    by_cases hut : u = t
    · rw [hut, c.move_pc_self] at hu
      have hdirty : c.dirty = true := by
        rcases hlocal.flushing hu with hp | ⟨_, hdirty⟩
        · exact h.flagged hp
        · exact hdirty
      rcases hlocal.dirty with hsame | ⟨_, _, htrue⟩ | ⟨_, hp', _⟩
      · exact hsame.trans hdirty
      · exact htrue
      · rw [hp'] at hu
        exact hu.elim
    · rw [c.move_pc_of_ne _ _ _ hut] at hu
      rcases hlocal.dirty with hsame | ⟨_, _, htrue⟩ | ⟨hp, _⟩
      · exact hsame.trans (h.flagged hu)
      · exact htrue
      · exact absurd (h.eq_of_holdsDirty hu.holdsDirty (u := t) (by rw [hp]; trivial)) hut
  case tmp =>
    -- The temporary file belongs to the task with the dirty lock.
    intro u copy hu
    by_cases hut : u = t
    · rw [hut, c.move_pc_self] at hu
      rcases hlocal.tmp with ⟨_, hne⟩ | ⟨_, htmp⟩
      · exact absurd hu (hne copy)
      · exact htmp copy hu
    · rw [c.move_pc_of_ne _ _ _ hut] at hu
      rcases hlocal.tmp with ⟨hsame, _⟩ | ⟨hp, _⟩
      · exact hsame.trans (h.tmp hu)
      · exact absurd (h.eq_of_holdsDirty (t := u) (by rw [hu]; trivial) hp) hut

theorem Inv.step {t : T} {e : Event} (h : w.Inv c) (hstep : w.Step c t e c') : w.Inv c' := by
  have hlocked := h.locked.step hstep
  obtain ⟨rfl, hlocal, hfree⟩ := hstep
  rename_i p' s'
  have hnone : (∀ u, ¬((c.move t s' p').pc u).Pending) →
      ¬(c.pc t = .markLocked ∧ s'.dirty = true) → ∀ u, ¬(c.pc u).Pending := by
    intro hall hmark u hu
    by_cases hut : u = t
    · subst hut
      rcases hlocal.pending hu with hp' | hp'
      · exact hall u (by rwa [c.move_pc_self])
      · exact hmark hp'
    · exact hall u (by rwa [c.move_pc_of_ne _ _ _ hut])
  have hview : (∀ u, ¬((c.move t s' p').pc u).Pending) → w.view s'.mem = w.view c.mem :=
    fun hall => hlocal.view_eq (by simpa using hall t)
  constructor
  case exclusive => exact hlocked.exclusive
  case flagged => exact hlocked.flagged
  case tmp => exact hlocked.tmp
  case le_file =>
    -- The file is as before, or the copy of the renaming persist.
    refine le_trans ?_ hlocal.view_le
    rcases h.locked.file_or_target hlocal with ⟨hfile, _⟩ | ⟨hf, _⟩
    · exact hfile ▸ h.le_file
    · exact h.le_target hf
  case le_target =>
    intro u f hf
    rcases h.locked.target_move hlocal hf with ⟨hf, _⟩ | ⟨_, hmem, rfl⟩
    · exact (h.le_target hf).trans hlocal.view_le
    · rw [w.viewFile_encode, c.move_toShared, hmem]
  case saved =>
    intro hall hclear
    have hclear : s'.dirty = false := hclear
    rw [c.move_toShared, hview hall]
    have hbefore := hnone hall fun hmark => Bool.false_ne_true (hclear.symm.trans hmark.2)
    rcases hlocal.dirty with hsame | ⟨_, _, htrue⟩ | ⟨hp, _⟩
    · have hclear : c.dirty = false := hsame.symm.trans hclear
      rcases hlocal.file with ⟨hfile, _⟩ | ⟨copy, hp, _⟩
      · exact hfile ▸ h.saved hbefore hclear
      · have := h.flagged (t := t) (by rw [hp]; trivial)
        exact absurd (hclear.symm.trans this) Bool.false_ne_true
    · exact absurd (hclear.symm.trans htrue) Bool.false_ne_true
    · -- The persist clears the flag: its copy, now the file, is that of the memory.
      rcases hlocal.file with ⟨hfile, _⟩ | ⟨copy, hp', _⟩
      · rw [hfile]
        exact h.target hbefore (t := t) (by rw [hp]; rfl)
      · rw [hp] at hp'
        cases hp'
  case target =>
    intro hall u f hf
    rw [c.move_toShared, hview hall]
    rcases h.locked.target_move hlocal hf with ⟨hf, _⟩ | ⟨_, _, rfl⟩
    · refine h.target (hnone hall fun hmark => ?_) hf
      -- The task that sets the flag holds the dirty lock, and has no copy.
      have hut : u = t :=
        h.locked.eq_of_holdsDirty (Pc.holdsDirty_of_target hf) (by rw [hmark.1]; trivial)
      rw [hut, hmark.1] at hf
      cases hf
    · exact w.viewFile_encode c.mem

theorem Reachable.inv (h : w.Reachable c) : w.Inv c := by
  induction h with
  | init h => exact h.inv
  | next _ hnext ih =>
    rcases hnext with ⟨t, e, hstep⟩ | ⟨hinit, _⟩
    · exact ih.step hstep
    · exact hinit.inv

theorem Reachable.trans (h : w.Reachable c) (hrun : Relation.ReflTransGen w.Next c c') :
    w.Reachable c' := by
  induction hrun with
  | refl => exact h
  | tail _ hnext ih => exact ih.next hnext

/-- If the flag is clear and no change is to be flagged, the file holds the view of
    the memory. -/
theorem Reachable.saved (h : w.Reachable c) (hclear : c.dirty = false)
    (hpending : ∀ t, ¬(c.pc t).Pending) : w.viewFile c.file = w.view c.mem :=
  h.inv.saved hpending hclear

/-! ## What is kept from some time on -/

/-- `P` holds of the memory, and `Q` of the file and of the copies. -/
structure Keeps (P Q : V → Prop) (c : Config T M S F) : Prop where
  mem : P (w.view c.mem)
  file : Q (w.viewFile c.file)
  target {t : T} {f : Option F} : (c.pc t).target w.encode c.file = some f → Q (w.viewFile f)

section Keeps

variable {P Q : V → Prop} (hmono : ∀ a b, a ≤ b → P a → P b) (hPQ : ∀ a, P a → Q a)

include hmono hPQ

theorem Keeps.step {t : T} {e : Event} (h : w.Keeps P Q c) (hinv : w.Inv c)
    (hstep : w.Step c t e c') : w.Keeps P Q c' := by
  obtain ⟨rfl, hlocal, _⟩ := hstep
  refine ⟨hmono _ _ hlocal.view_le h.mem, ?_, fun {u f} hf => ?_⟩
  · rcases hinv.locked.file_or_target hlocal with ⟨hfile, _⟩ | ⟨hf, _⟩
    · exact hfile ▸ h.file
    · exact h.target hf
  · rcases hinv.locked.target_move hlocal hf with ⟨hf, _⟩ | ⟨_, _, rfl⟩
    · exact h.target hf
    · rw [w.viewFile_encode]
      exact hPQ _ h.mem

end Keeps

omit [DecidableEq T] in
/-- A start keeps what it has kept of the file, if the memory is as before. -/
theorem Keeps.init {P Q : V → Prop} (h : w.Keeps P Q c) (hinit : w.Init c')
    (hfile : c'.file = c.file) (hP : P (w.view c'.mem)) : w.Keeps P Q c' :=
  ⟨hP, hfile ▸ h.file, fun hf => by rw [hinit.idle] at hf; cases hf⟩

/-! ## Properties of the memory -/

omit [DecidableEq T] in
variable (w) in
/-- A property of the memory that its changes keep, and that goes through the file. -/
structure Stable (P : M → Prop) (Q : Option F → Prop) : Prop where
  mutates {m m' : M} {reported : Bool} : w.Mutates m m' reported → P m → P m'
  save {m : M} : P m → Q (some (w.encode (w.snapshot m)))
  start {file : Option F} {m : M} : w.Starts file m → Q file → P m

omit [DecidableEq T] in
variable (w) in
/-- `P` holds of the memory, and `Q` of the file and of the copies. -/
structure Holds (P : M → Prop) (Q : Option F → Prop) (c : Config T M S F) : Prop where
  mem : P c.mem
  file : Q c.file
  target {t : T} {f : Option F} : (c.pc t).target w.encode c.file = some f → Q f

section Stable

variable {P : M → Prop} {Q : Option F → Prop} (hstable : w.Stable P Q)

include hstable

omit [DecidableEq T] in
theorem Stable.init (hinit : w.Init c) (hfile : Q c.file) : w.Holds P Q c :=
  ⟨hstable.start hinit.starts hfile, hfile, fun hf => by rw [hinit.idle] at hf; cases hf⟩

theorem Stable.step {t : T} {e : Event} (h : w.Holds P Q c) (hinv : w.Inv c)
    (hstep : w.Step c t e c') : w.Holds P Q c' := by
  obtain ⟨rfl, hlocal, _⟩ := hstep
  refine ⟨?_, ?_, fun {u f} hf => ?_⟩
  · rcases hlocal.mem with hmem | ⟨reported, _, _, _, hm⟩
    · exact hmem ▸ h.mem
    · exact hstable.mutates hm h.mem
  · rcases hinv.locked.file_or_target hlocal with ⟨hfile, _⟩ | ⟨hf, _⟩
    · exact hfile ▸ h.file
    · exact h.target hf
  · rcases hinv.locked.target_move hlocal hf with ⟨hf, _⟩ | ⟨_, _, rfl⟩
    · exact h.target hf
    · exact hstable.save h.mem

/-- A stable property holds throughout, whatever is killed and started again. -/
theorem Stable.run (hinit : w.Init c) (hfile : Q c.file)
    (hrun : Relation.ReflTransGen w.Next c c') : w.Holds P Q c' := by
  induction hrun with
  | refl => exact hstable.init hinit hfile
  | @tail d d' hrun hnext ih =>
    rcases hnext with ⟨t, e, hstep⟩ | ⟨hinit', hsame⟩
    · exact hstable.step ih ((Reachable.init hinit).trans hrun).inv hstep
    · exact hstable.init hinit' (hsame ▸ ih.file)

end Stable

/-! ## Tasks on their own -/

variable (w) in
/-- The steps of one task, with no other in between. -/
inductive Alone (s : Shared M F) (p : Pc S) : Shared M F → Pc S → Prop
  | refl : Alone s p s p
  | tail {s' s'' p' p'' e} (h : Alone s p s' p') (hlocal : w.Local s' p' e s'' p'') :
    Alone s p s'' p''

/-- A task can go on while the others are idle. -/
theorem Step.solo {t : T} (hidle : ∀ u, u ≠ t → c.pc u = .idle) {e : Event} {s' : Shared M F}
    {p' : Pc S} (hlocal : w.Local c.toShared (c.pc t) e s' p') :
    w.Step c t e (c.move t s' p') := by
  refine .mk rfl hlocal fun u hut => ?_
  rw [hidle u hut]
  rintro (h | h | h) <;> exact h.1

theorem Step.solo_move {t : T} (hidle : ∀ u, u ≠ t → c.pc u = .idle) {e : Event}
    {s s' : Shared M F} {p p' : Pc S} (hlocal : w.Local s p e s' p') :
    w.Step (c.move t s p) t e (c.move t s' p') := by
  rw [← c.move_move t s p s' p']
  refine .solo (fun u hut => ?_) ?_
  · rw [c.move_pc_of_ne _ _ _ hut, hidle u hut]
  · rwa [c.move_pc_self]

theorem Alone.steps {t : T} {s' : Shared M F} {p' : Pc S} (h : w.Alone c.toShared (c.pc t) s' p')
    (hidle : ∀ u, u ≠ t → c.pc u = .idle) :
    Relation.ReflTransGen (fun c c' => ∃ t e, w.Step c t e c') c (c.move t s' p') := by
  induction h with
  | refl => rw [c.move_self]
  | tail _ hlocal ih => exact ih.tail ⟨t, _, .solo_move hidle hlocal⟩

theorem Alone.next {t : T} {s' : Shared M F} {p' : Pc S} (h : w.Alone c.toShared (c.pc t) s' p')
    (hidle : ∀ u, u ≠ t → c.pc u = .idle) :
    Relation.ReflTransGen w.Next c (c.move t s' p') :=
  (h.steps hidle).lift id fun _ _ => .inl

end WriteBehind
