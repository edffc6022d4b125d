import Mathlib.Data.List.Nodup
import Mathlib.Logic.Function.Basic

/-!
# Files replaced by renaming

Any number of tasks on one disk, each with a target: a task saves a value by writing it, in
any pieces, to a temporary file next to the target, and renaming this file to the target.
It may fail, or be killed, at any instant, and begin again (`Step`).

A path leads to a file, and what is written to an open file is written there, wherever the
file is by now (`Disk`). So tasks that do not keep apart can damage each other's files. They
do not if and only if no two have the same temporary path, and no target is a temporary
path (`whole_iff`): then every target holds at all times the whole of what its task has
saved last.
-/

namespace ReplaceFile

open Function (Injective update)

/-! ## Disks -/

/-- The files that the paths lead to, and what is in the files. Files are numbered as they
    are created, and not used again. -/
structure Disk (P B : Type*) where
  entry : P → Option ℕ
  content : ℕ → List B
  next : ℕ
  lt_next {p : P} {file : ℕ} : entry p = some file → file < next
  /-- A file has one path. -/
  inj {p q : P} {file : ℕ} : entry p = some file → entry q = some file → p = q

/-- What is in a file after `bytes` are written at an offset. -/
def writeAt {B : Type*} [Inhabited B] (content : List B) (offset : ℕ) (bytes : List B) : List B :=
  content.take offset ++ List.replicate (offset - content.length) default ++ bytes ++
    content.drop (offset + bytes.length)

theorem writeAt_length {B : Type*} [Inhabited B] (content bytes : List B) :
    writeAt content content.length bytes = content ++ bytes := by
  simp [writeAt]

namespace Disk

variable {P B : Type*} {disk : Disk P B} {p q : P} {file : ℕ}

/-- What is at a path. -/
def read (disk : Disk P B) (p : P) : Option (List B) := (disk.entry p).map disk.content

theorem read_of_entry (h : disk.entry p = some file) : disk.read p = some (disk.content file) :=
  congrArg (Option.map _) h

/-- The disk without files. -/
def empty : Disk P B where
  entry _ := none
  content _ := []
  next := 0
  lt_next := nofun
  inj := nofun

/-! ### Writing -/

/-- The disk with the content of a file set. -/
def setContent (disk : Disk P B) (file : ℕ) (content : List B) : Disk P B :=
  { disk with content := update disk.content file content }

theorem read_setContent_self (hp : disk.entry p = some file) (content : List B) :
    (disk.setContent file content).read p = some content :=
  (congrArg (Option.map _) hp).trans (congrArg some (Function.update_self ..))

/-- What is in a file shows at its path only. -/
theorem read_setContent_of_ne (hq : disk.entry q ≠ some file) (content : List B) :
    (disk.setContent file content).read q = disk.read q := by
  rw [read, read, setContent]
  cases hentry : disk.entry q with
  | none => rfl
  | some file' =>
    have hne : file' ≠ file := fun heq => hq (hentry.trans (congrArg some heq))
    exact congrArg some (Function.update_of_ne hne ..)

/-- Writes to an open file. -/
def write [Inhabited B] (disk : Disk P B) (file offset : ℕ) (bytes : List B) : Disk P B :=
  disk.setContent file (writeAt (disk.content file) offset bytes)

/-! ### Paths -/

variable [DecidableEq P]

/-- The disk with a new file at a path. -/
def link (disk : Disk P B) (p : P) : Disk P B where
  entry := update disk.entry p (some disk.next)
  content := disk.content
  next := disk.next + 1
  lt_next := by
    intro q file h
    rw [Function.update_apply] at h
    split_ifs at h
    · exact Option.some_inj.1 h ▸ disk.next.lt_succ_self
    · exact Nat.lt_succ_of_lt (disk.lt_next h)
  inj := by
    intro q q' file h h'
    rw [Function.update_apply] at h h'
    split_ifs at h h' with hq hq' hq'
    · exact hq.trans hq'.symm
    · exact absurd (disk.lt_next h') (Option.some_inj.1 h ▸ Nat.lt_irrefl _)
    · exact absurd (disk.lt_next h) (Option.some_inj.1 h' ▸ Nat.lt_irrefl _)
    · exact disk.inj h h'

/-- Opens a path to write an empty file: the file there, truncated, or a new one. -/
def create (disk : Disk P B) (p : P) : Disk P B × ℕ :=
  match disk.entry p with
  | some file => (disk.setContent file [], file)
  | none => ((disk.link p).setContent disk.next [], disk.next)

theorem entry_create_self : (disk.create p).1.entry p = some (disk.create p).2 := by
  rw [create]
  split
  · assumption
  · exact Function.update_self ..

theorem entry_create_of_ne (h : q ≠ p) : (disk.create p).1.entry q = disk.entry q := by
  rw [create]
  split
  · rfl
  · exact Function.update_of_ne h ..

theorem read_create_self : (disk.create p).1.read p = some [] := by
  rw [create]
  split
  · exact read_setContent_self ‹_› []
  · exact read_setContent_self (Function.update_self ..) []

theorem read_create_of_ne (h : q ≠ p) : (disk.create p).1.read q = disk.read q := by
  rw [create]
  split
  · exact read_setContent_of_ne (fun hq => h (disk.inj hq ‹_›)) []
  · have hentry : (disk.link p).entry q = disk.entry q := Function.update_of_ne h ..
    rw [read_setContent_of_ne (fun hq => Nat.lt_irrefl _ (disk.lt_next (hentry ▸ hq))), read,
      hentry]
    rfl

/-- A path leads to a file after a renaming if it is the new one of the file, or another one
    than the old one. -/
theorem entry_rename_cases {entry : P → Option ℕ} {r : P}
    (h : update (update entry p none) q (entry p) r = some file) :
    (r = q ∧ entry p = some file) ∨ (r ≠ p ∧ entry r = some file) := by
  rw [Function.update_apply, Function.update_apply] at h
  by_cases hq : r = q
  · rw [if_pos hq] at h
    exact .inl ⟨hq, h⟩
  · rw [if_neg hq] at h
    split_ifs at h with hp
    exact .inr ⟨hp, h⟩

/-- Renames the file at `p` to `q`. -/
def rename (disk : Disk P B) (p q : P) : Disk P B where
  entry := update (update disk.entry p none) q (disk.entry p)
  content := disk.content
  next := disk.next
  lt_next h := by
    rcases entry_rename_cases h with ⟨_, h⟩ | ⟨_, h⟩
    · exact disk.lt_next h
    · exact disk.lt_next h
  inj h h' := by
    rcases entry_rename_cases h with ⟨hr, h⟩ | ⟨hr, h⟩ <;>
      rcases entry_rename_cases h' with ⟨hr', h'⟩ | ⟨hr', h'⟩
    · exact hr.trans hr'.symm
    · exact absurd (disk.inj h' h) hr'
    · exact absurd (disk.inj h h') hr
    · exact disk.inj h h'

theorem read_rename_self : (disk.rename p q).read q = disk.read p :=
  congrArg (Option.map _) (Function.update_self (β := fun _ : P => Option ℕ) ..)

theorem entry_rename_of_ne {r : P} (hp : r ≠ p) (hq : r ≠ q) :
    (disk.rename p q).entry r = disk.entry r :=
  (Function.update_of_ne hq ..).trans (Function.update_of_ne hp ..)

theorem read_rename_of_ne {r : P} (hp : r ≠ p) (hq : r ≠ q) :
    (disk.rename p q).read r = disk.read r :=
  congrArg (Option.map _) (entry_rename_of_ne hp hq)

end Disk

/-! ## Tasks -/

/-- Where a task is. -/
inductive Phase (W B : Type*)
  | idle
  /-- The task has opened a file, and written `done` of the value. -/
  | writing (w : W) (file : ℕ) (done rest : List B)
  | written (w : W)

/-- A state: the disk, where the tasks are, and the value that each has saved last. -/
structure Config (I W P B : Type*) where
  disk : Disk P B
  phase : I → Phase W B
  saved : I → Option W

section Tasks

variable {I W P B : Type*} [DecidableEq I] [DecidableEq P] [Inhabited B]

/-- A step of the task `i`, which saves values as `encode` writes them, in files at `tmp` next
    to its target. If there is no such path, it saves nothing. -/
inductive Step (encode : W → List B) (tmp : P → Option P) (target : I → P) (c : Config I W P B)
    (i : I) : Config I W P B → Prop
  | create {p} (w : W) (htmp : tmp (target i) = some p) (hphase : c.phase i = .idle) :
    Step encode tmp target c i
      { c with
        disk := (c.disk.create p).1
        phase := update c.phase i (.writing w (c.disk.create p).2 [] (encode w)) }
  | write {w file done} (chunk rest : List B)
    (hphase : c.phase i = .writing w file done (chunk ++ rest)) :
    Step encode tmp target c i
      { c with
        disk := c.disk.write file done.length chunk
        phase := update c.phase i (.writing w file (done ++ chunk) rest) }
  | close {w file done} (hphase : c.phase i = .writing w file done []) :
    Step encode tmp target c i { c with phase := update c.phase i (.written w) }
  | rename {w p} (htmp : tmp (target i) = some p) (hphase : c.phase i = .written w)
    (hentry : c.disk.entry p ≠ none) :
    Step encode tmp target c i
      { disk := c.disk.rename p (target i)
        phase := update c.phase i .idle
        saved := update c.saved i (some w) }
  /-- The task fails, or is killed. -/
  | fail : Step encode tmp target c i { c with phase := update c.phase i .idle }

/-- The state in which no task has begun. -/
def start (disk : Disk P B) : Config I W P B := ⟨disk, fun _ => .idle, fun _ => none⟩

/-- The states that can be reached from a disk. -/
inductive Reachable (encode : W → List B) (tmp : P → Option P) (target : I → P)
    (disk : Disk P B) : Config I W P B → Prop
  | start : Reachable encode tmp target disk (start disk)
  | step {c c' i} (h : Reachable encode tmp target disk c)
    (hstep : Step encode tmp target c i c') : Reachable encode tmp target disk c'

/-- The tasks keep apart. -/
structure Apart (tmp : P → Option P) (target : I → P) : Prop where
  inj {i j : I} {p : P} : tmp (target i) = some p → tmp (target j) = some p → i = j
  ne (i j : I) : tmp (target i) ≠ some (target j)

/-- Every target holds the whole of what its task has saved last, and what was there at first
    if it has saved nothing. -/
def Whole (encode : W → List B) (target : I → P) (disk : Disk P B) (c : Config I W P B) : Prop :=
  ∀ i, c.disk.read (target i) =
    (c.saved i).elim (disk.read (target i)) fun w => some (encode w)

/-! ### Tasks that keep apart -/

/-- What a task has written so far is in its file, at its temporary path. -/
def Phase.Written (encode : W → List B) (disk : Disk P B) (tmp : Option P) : Phase W B → Prop
  | idle => True
  | writing w file done rest =>
    ∃ p, tmp = some p ∧ disk.entry p = some file ∧ disk.read p = some done ∧ done ++ rest = encode w
  | written w => ∃ p, tmp = some p ∧ disk.read p = some (encode w)

/-- What a reachable state of tasks that keep apart satisfies. -/
structure Inv (encode : W → List B) (tmp : P → Option P) (target : I → P) (disk : Disk P B)
    (c : Config I W P B) : Prop where
  whole : Whole encode target disk c
  written (i : I) : (c.phase i).Written encode c.disk (tmp (target i))

variable {encode : W → List B} {tmp : P → Option P} {target : I → P} {disk disk' : Disk P B}
  {c c' : Config I W P B} {i : I} {p : P}

omit [DecidableEq I] [DecidableEq P] [Inhabited B] in
theorem Phase.Written.congr {p? : Option P} {phase : Phase W B}
    (h : phase.Written encode disk p?)
    (hframe : ∀ p, p? = some p → disk'.entry p = disk.entry p ∧ disk'.read p = disk.read p) :
    phase.Written encode disk' p? := by
  cases phase with
  | idle => trivial
  | writing w file done rest =>
    obtain ⟨p, hp, hentry, hread, hbytes⟩ := h
    exact ⟨p, hp, (hframe p hp).1.trans hentry, (hframe p hp).2.trans hread, hbytes⟩
  | written w =>
    obtain ⟨p, hp, hread⟩ := h
    exact ⟨p, hp, (hframe p hp).2.trans hread⟩

omit [DecidableEq P] [Inhabited B] in
/-- A task that changes nothing at the paths of the others does not disturb them. -/
theorem Inv.move (h : Inv encode tmp target disk c) (i : I) (disk' : Disk P B)
    (phase : Phase W B) (saved : Option W)
    (htargets : ∀ j, j ≠ i → disk'.read (target j) = c.disk.read (target j))
    (htmps : ∀ j, j ≠ i → ∀ p, tmp (target j) = some p →
      disk'.entry p = c.disk.entry p ∧ disk'.read p = c.disk.read p)
    (hwritten : phase.Written encode disk' (tmp (target i)))
    (hread : disk'.read (target i) =
      saved.elim (disk.read (target i)) fun w => some (encode w)) :
    Inv encode tmp target disk ⟨disk', update c.phase i phase, update c.saved i saved⟩ := by
  refine ⟨fun j => ?_, fun j => ?_⟩
  · by_cases hj : j = i
    · subst hj
      simpa only [Function.update_self] using hread
    · simpa only [Function.update_of_ne hj] using (htargets j hj).trans (h.whole j)
  · by_cases hj : j = i
    · subst hj
      simpa only [Function.update_self] using hwritten
    · simpa only [Function.update_of_ne hj] using (h.written j).congr (htmps j hj)

omit [DecidableEq P] [Inhabited B] in
/-- A task that changes the disk at its own paths only does not disturb the others. -/
theorem Inv.move_own (h : Inv encode tmp target disk c) (hapart : Apart tmp target) (i : I)
    (htmp : tmp (target i) = some p) (disk' : Disk P B) (phase : Phase W B) (saved : Option W)
    (hframe : ∀ q, q ≠ target i → q ≠ p →
      disk'.entry q = c.disk.entry q ∧ disk'.read q = c.disk.read q)
    (hwritten : phase.Written encode disk' (tmp (target i)))
    (hread : disk'.read (target i) =
      saved.elim (disk.read (target i)) fun w => some (encode w)) :
    Inv encode tmp target disk ⟨disk', update c.phase i phase, update c.saved i saved⟩ := by
  have hne : ∀ j, target j ≠ p := fun j hj => hapart.ne i j (hj ▸ htmp)
  refine h.move i disk' phase saved (fun j hj => ?_) (fun j hj q hq => ?_) hwritten hread
  · -- Tasks with one target would have one temporary path.
    exact (hframe _ (fun heq => hj (hapart.inj (heq ▸ htmp) htmp)) (hne j)).2
  · refine hframe q (fun heq => hapart.ne j i (heq ▸ hq)) fun heq => hj ?_
    exact hapart.inj hq (heq ▸ htmp)

theorem Inv.step (h : Inv encode tmp target disk c) (hapart : Apart tmp target)
    (hstep : Step encode tmp target c i c') : Inv encode tmp target disk c' := by
  have hwritten := h.written i
  have hsaved : update c.saved i (c.saved i) = c.saved := Function.update_eq_self ..
  have hne : ∀ {p}, tmp (target i) = some p → target i ≠ p :=
    fun htmp heq => hapart.ne i i (heq ▸ htmp)
  cases hstep with
  | @create p w htmp hphase =>
    have hmove := h.move_own hapart i htmp (c.disk.create p).1
      (.writing w (c.disk.create p).2 [] (encode w)) (c.saved i)
      (fun q _ hq => ⟨Disk.entry_create_of_ne hq, Disk.read_create_of_ne hq⟩)
      ⟨p, htmp, Disk.entry_create_self, Disk.read_create_self, rfl⟩
      ((Disk.read_create_of_ne (hne htmp)).trans (h.whole i))
    rwa [hsaved] at hmove
  | @write w file done chunk rest hphase =>
    rw [hphase] at hwritten
    obtain ⟨p, htmp, hentry, hread, hbytes⟩ := hwritten
    have hother : ∀ q, q ≠ p → c.disk.entry q ≠ some file :=
      fun q hq heq => hq (c.disk.inj heq hentry)
    -- The write goes on where the last one ended.
    obtain rfl := Option.some_inj.1 ((Disk.read_of_entry hentry).symm.trans hread)
    have hmove := h.move_own hapart i htmp (c.disk.write file (c.disk.content file).length chunk)
      (.writing w file (c.disk.content file ++ chunk) rest) (c.saved i)
      (fun q _ hq => ⟨rfl, Disk.read_setContent_of_ne (hother q hq) _⟩)
      ⟨p, htmp, hentry,
        (Disk.read_setContent_self hentry _).trans (congrArg some (writeAt_length ..)),
        (List.append_assoc ..).trans hbytes⟩
      ((Disk.read_setContent_of_ne (hother _ (hne htmp)) _).trans (h.whole i))
    rwa [hsaved] at hmove
  | @close w file done hphase =>
    rw [hphase] at hwritten
    obtain ⟨p, htmp, _, hread, hbytes⟩ := hwritten
    rw [List.append_nil] at hbytes
    have hmove := h.move i c.disk (.written w) (c.saved i) (fun _ _ => rfl)
      (fun _ _ _ _ => ⟨rfl, rfl⟩) ⟨p, htmp, hread.trans (congrArg some hbytes)⟩ (h.whole i)
    rwa [hsaved] at hmove
  | @rename w p htmp hphase hentry =>
    rw [hphase] at hwritten
    obtain ⟨p', htmp', hread⟩ := hwritten
    obtain rfl := Option.some_inj.1 (htmp.symm.trans htmp')
    exact h.move_own hapart i htmp _ .idle (some w)
      (fun q hq hq' => ⟨Disk.entry_rename_of_ne hq' hq, Disk.read_rename_of_ne hq' hq⟩)
      trivial (Disk.read_rename_self.trans hread)
  | fail =>
    have hmove := h.move i c.disk .idle (c.saved i) (fun _ _ => rfl) (fun _ _ _ _ => ⟨rfl, rfl⟩)
      trivial (h.whole i)
    rwa [hsaved] at hmove

theorem Reachable.inv (h : Reachable encode tmp target disk c) (hapart : Apart tmp target) :
    Inv encode tmp target disk c := by
  induction h with
  | start => exact ⟨fun _ => rfl, fun _ => trivial⟩
  | step _ hstep ih => exact ih.step hapart hstep

/-! ### Tasks that do not -/

/-- A task that is idle can write its temporary file. -/
theorem Reachable.exists_written (h : Reachable encode tmp target disk c)
    (htmp : tmp (target i) = some p) (hphase : c.phase i = .idle) (w : W) :
    ∃ c', Reachable encode tmp target disk c' ∧ c'.phase = update c.phase i (.written w) ∧
      c'.disk.entry p ≠ none := by
  have hcreate := h.step (.create w htmp hphase)
  have hentry : (c.disk.create p).1.entry p ≠ none := by
    rw [Disk.entry_create_self]
    exact nofun
  have hwrite := hcreate.step (.write (encode w) []
    ((Function.update_self ..).trans (by rw [List.append_nil])))
  have hclose := hwrite.step (.close (Function.update_self ..))
  refine ⟨_, hclose, ?_, hentry⟩
  simp only [Function.update_idem]

/-- Tasks that save something do not damage each other's files if and only if they keep
    apart. -/
theorem whole_iff (hencode : ∃ w, encode w ≠ []) :
    (∀ disk c, Reachable encode tmp target disk c → Whole encode target disk c) ↔
      Apart tmp target := by
  obtain ⟨w, hw⟩ := hencode
  refine ⟨fun h => ⟨fun {i j p} hi hj => ?_, fun i j hij => ?_⟩, fun hapart disk c h =>
    (h.inv hapart).whole⟩
  · by_contra hne
    have hstart : Reachable encode tmp target .empty (start .empty) := .start
    -- The task `j` truncates the file that `i` has written, and `i` renames it.
    obtain ⟨c, hc, hphase, hentry⟩ := hstart.exists_written hi rfl w
    have hwritten : c.phase i = .written w := hphase ▸ Function.update_self ..
    have hidle : c.phase j = .idle := hphase ▸ Function.update_of_ne (Ne.symm hne) ..
    have hcreate := hc.step (.create w hj hidle)
    have hentry' : (c.disk.create p).1.entry p ≠ none := by
      rw [Disk.entry_create_self]
      exact nofun
    have hrename := hcreate.step
      (.rename hi ((Function.update_of_ne hne ..).trans hwritten) hentry')
    have hread := h _ _ hrename i
    simp only [Function.update_self, Disk.read_rename_self, Disk.read_create_self] at hread
    exact hw (Option.some_inj.1 hread).symm
  · -- On an empty disk, the task `i` creates the target of `j`.
    have hstart : Reachable encode tmp target .empty (start .empty) := .start
    have hread := h _ _ (hstart.step (.create w hij rfl)) j
    cases Disk.read_create_self.symm.trans hread

end Tasks

end ReplaceFile
