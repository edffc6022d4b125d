import Mathlib.Data.List.Basic
import Mathlib.Data.List.Nodup
import Mathlib.Data.Set.Insert
import Mathlib.Logic.Function.Basic
import Mathlib.Logic.Relation
import Mathlib.Order.RelClasses
import Mathlib.Order.WellFounded

/-!
# First-in-first-out read-write locks

Any number of tasks that share a state under read-write locks. A task requests a lock
by joining its queue. It is granted the lock at the front of the queue, and once no
task holds the lock in a mode that excludes it: so a waiting writer blocks later
readers. What a task has to do is its `Code`; the steps of the tasks interleave
(`Step`).

If the codes take the locks in ascending order (`Code.Ordered`), then in every state
that can be reached

* the tasks that hold a lock hold it in compatible modes (`Inv.exclusive`);
* no cycle of tasks wait for each other (`Inv.acyclic`);
* a task that has not finished can make a step, or waits, in the end, for one that can
  (`Inv.exists_step`).

A task on its own can do what its code says (`Config.Solo.exists_run`).
-/

namespace FifoLock

/-! ## Codes -/

inductive Mode
  | read
  | write
  deriving DecidableEq

/-- Two tasks can hold a lock in these modes at once. -/
def Mode.Compatible : Mode → Mode → Prop
  | read, read => True
  | _, _ => False

theorem Mode.Compatible.symm {m m' : Mode} (h : m.Compatible m') : m'.Compatible m := by
  cases m <;> cases m' <;> exact h

/-- What a task has to do, on a state `σ` with the locks `L`. -/
inductive Code (σ L : Type)
  | done
  | lock (l : L) (mode : Mode) (next : Code σ L)
  | unlock (l : L) (next : Code σ L)
  /-- Change the state, and go on by what it was. -/
  | access (change : σ → σ) (next : σ → Code σ L)
  /-- Go on in one of two ways, whatever the state. -/
  | choose (a b : Code σ L)

namespace Code

variable {σ L : Type}

/-- One code after the other. -/
def seq : Code σ L → Code σ L → Code σ L
  | done, b => b
  | lock l mode next, b => lock l mode (next.seq b)
  | unlock l next, b => unlock l (next.seq b)
  | access change next, b => access change fun s => (next s).seq b
  | choose a a', b => choose (a.seq b) (a'.seq b)

/-- What the code does to the state if nothing interferes, with the choices made by
    `pick`. -/
def eval (pick : Bool) : Code σ L → σ → σ
  | done, s => s
  | lock _ _ next, s => next.eval pick s
  | unlock _ next, s => next.eval pick s
  | access change next, s => (next s).eval pick (change s)
  | choose a b, s => if pick then a.eval pick s else b.eval pick s

variable [Preorder L]

/-- With the locks `held`, the code takes the others in ascending order, releases only
    what it holds, and holds none in the end. -/
def Ordered : Code σ L → Set L → Prop
  | done, held => held = ∅
  | lock l _ next, held => (∀ l' ∈ held, l' < l) ∧ next.Ordered (insert l held)
  | unlock l next, held => l ∈ held ∧ next.Ordered (held \ {l})
  | access _ next, held => ∀ s, (next s).Ordered held
  | choose a b, held => a.Ordered held ∧ b.Ordered held

theorem Ordered.seq {a b : Code σ L} {held : Set L} (ha : a.Ordered held) (hb : b.Ordered ∅) :
    (a.seq b).Ordered held := by
  induction a generalizing held with
  | done =>
    obtain rfl : held = ∅ := ha
    exact hb
  | lock l mode next ih => exact ⟨ha.1, ih ha.2⟩
  | unlock l next ih => exact ⟨ha.1, ih ha.2⟩
  | access change next ih => exact fun s => ih s (ha s)
  | choose a a' ih ih' => exact ⟨ih ha.1, ih' ha.2⟩

/-- The codes of a list, one after the other. -/
theorem Ordered.foldr_seq {codes : List (Code σ L)} (h : ∀ a ∈ codes, a.Ordered ∅) :
    (codes.foldr Code.seq done).Ordered ∅ := by
  induction codes with
  | nil => exact rfl
  | cons a codes ih =>
    exact (h a List.mem_cons_self).seq (ih fun b hb => h b (List.mem_cons_of_mem _ hb))

end Code

/-! ## Steps -/

/-- A state: what the tasks share, what they have still to do, the locks that they
    hold, and those that they wait for. -/
structure Config (T σ L : Type) where
  state : σ
  code : T → Code σ L
  holds : T → L → Option Mode
  /-- The tasks that wait for a lock, with the modes, the first one first. -/
  queue : L → List (T × Mode)

variable {T σ L : Type}

/-- The state in which no task has begun. -/
def start (s : σ) (code : T → Code σ L) : Config T σ L := ⟨s, code, fun _ _ => none, fun _ => []⟩

/-- The task `t` waits for the task `u`, which is ahead of it in the queue of a lock, or
    holds the lock in a mode that excludes it. -/
def Config.Waits (c : Config T σ L) (t u : T) : Prop :=
  ∃ l mode ahead behind, c.queue l = ahead ++ (t, mode) :: behind ∧
    ((∃ mode', (u, mode') ∈ ahead) ∨ ∃ mode', c.holds u l = some mode' ∧ ¬mode.Compatible mode')

/-- The locks that a task holds. -/
def Config.held (c : Config T σ L) (t : T) : Set L := {l | c.holds t l ≠ none}

variable [DecidableEq T] [DecidableEq L]

/-- The state in which the task `t` has changed the state, and has `next` to do. -/
def Config.advance (c : Config T σ L) (t : T) (s : σ) (next : Code σ L) : Config T σ L :=
  { c with state := s, code := Function.update c.code t next }

/-- The state in which the task `t` holds the lock `l` in the given mode, or not at
    all. -/
def Config.setHolds (c : Config T σ L) (t : T) (l : L) (mode : Option Mode) : Config T σ L :=
  { c with holds := Function.update c.holds t (Function.update (c.holds t) l mode) }

def Config.setQueue (c : Config T σ L) (l : L) (queue : List (T × Mode)) : Config T σ L :=
  { c with queue := Function.update c.queue l queue }

/-- A step of the task `t`. -/
inductive Step (c : Config T σ L) (t : T) : Config T σ L → Prop
  | request {l mode next} (hcode : c.code t = .lock l mode next) (hnew : (t, mode) ∉ c.queue l) :
    Step c t (c.setQueue l (c.queue l ++ [(t, mode)]))
  | grant {l mode next rest} (hcode : c.code t = .lock l mode next)
    (hfront : c.queue l = (t, mode) :: rest)
    (hfree : ∀ u mode', c.holds u l = some mode' → mode.Compatible mode') :
    Step c t (((c.setQueue l rest).setHolds t l (some mode)).advance t c.state next)
  | release {l next} (hcode : c.code t = .unlock l next) :
    Step c t ((c.setHolds t l none).advance t c.state next)
  | access {change next} (hcode : c.code t = .access change next) :
    Step c t (c.advance t (change c.state) (next c.state))
  | chooseLeft {a b} (hcode : c.code t = .choose a b) : Step c t (c.advance t c.state a)
  | chooseRight {a b} (hcode : c.code t = .choose a b) : Step c t (c.advance t c.state b)

/-- Something happens. -/
def Next (c c' : Config T σ L) : Prop := ∃ t, Step c t c'

section Config

variable (c : Config T σ L) (t u : T) (l : L)

omit [DecidableEq L] in
@[simp] theorem Config.advance_code_self (s : σ) (next : Code σ L) :
    (c.advance t s next).code t = next := Function.update_self ..

omit [DecidableEq L] in
@[simp] theorem Config.advance_code_of_ne (s : σ) (next : Code σ L) {t u : T} (h : u ≠ t) :
    (c.advance t s next).code u = c.code u := Function.update_of_ne h ..

@[simp] theorem Config.setHolds_self (mode : Option Mode) :
    (c.setHolds t l mode).holds t l = mode := by
  simp [setHolds]

theorem Config.setHolds_of_ne (mode : Option Mode) {t u : T} {l l' : L} (h : u ≠ t ∨ l' ≠ l) :
    (c.setHolds t l mode).holds u l' = c.holds u l' := by
  rcases h with h | h
  · simp [setHolds, h]
  · by_cases hut : u = t
    · subst hut
      simp [setHolds, h]
    · simp [setHolds, hut]

theorem Config.holds_of_setHolds {mode : Option Mode} {t u : T} {l l' : L} {mode' : Mode}
    (h : (c.setHolds t l mode).holds u l' = some mode') :
    c.holds u l' = some mode' ∨ (u = t ∧ l' = l ∧ mode = some mode') := by
  by_cases hul : u ≠ t ∨ l' ≠ l
  · exact .inl (c.setHolds_of_ne mode hul ▸ h)
  · obtain ⟨rfl, rfl⟩ := not_or.1 hul |>.imp not_not.1 not_not.1
    exact .inr ⟨rfl, rfl, c.setHolds_self u l' mode ▸ h⟩

theorem Config.held_setHolds_some (mode : Mode) :
    (c.setHolds t l (some mode)).held t = insert l (c.held t) := by
  ext l'
  by_cases h : l' = l
  · subst h
    simp [held]
  · simp [held, c.setHolds_of_ne _ (.inr h), h]

theorem Config.held_setHolds_none : (c.setHolds t l none).held t = c.held t \ {l} := by
  ext l'
  by_cases h : l' = l
  · subst h
    simp [held]
  · simp [held, c.setHolds_of_ne _ (.inr h), h]

theorem Config.held_setHolds_of_ne (mode : Option Mode) {t u : T} (h : u ≠ t) :
    (c.setHolds t l mode).held u = c.held u := by
  ext l'
  simp [held, c.setHolds_of_ne _ (.inl h)]

omit [DecidableEq T] in
@[simp] theorem Config.setQueue_self (queue : List (T × Mode)) :
    (c.setQueue l queue).queue l = queue := Function.update_self ..

omit [DecidableEq T] in
@[simp] theorem Config.setQueue_of_ne (queue : List (T × Mode)) {l l' : L} (h : l' ≠ l) :
    (c.setQueue l queue).queue l' = c.queue l' := Function.update_of_ne h ..

omit [DecidableEq T] in
theorem Config.mem_setQueue {queue : List (T × Mode)} {l l' : L} {e : T × Mode}
    (h : e ∈ (c.setQueue l queue).queue l') : (l' = l ∧ e ∈ queue) ∨ (l' ≠ l ∧ e ∈ c.queue l') := by
  by_cases hl : l' = l
  · exact .inl ⟨hl, by rwa [hl, c.setQueue_self] at h⟩
  · exact .inr ⟨hl, by rwa [c.setQueue_of_ne _ hl] at h⟩

omit [DecidableEq T] in
theorem Config.nodup_setQueue {queue : List (T × Mode)} (hqueue : queue.Nodup)
    (h : ∀ l, (c.queue l).Nodup) (l' : L) : ((c.setQueue l queue).queue l').Nodup := by
  by_cases hl : l' = l
  · rwa [hl, c.setQueue_self]
  · rw [c.setQueue_of_ne _ hl]
    exact h l'

end Config

/-! ## Invariants -/

variable [Preorder L]

omit [DecidableEq T] [DecidableEq L] in
/-- What holds in every state that can be reached. -/
structure Inv (c : Config T σ L) : Prop where
  ordered (t : T) : (c.code t).Ordered (c.held t)
  queued {t : T} {l : L} {mode : Mode} :
    (t, mode) ∈ c.queue l → ∃ next, c.code t = .lock l mode next
  nodup (l : L) : (c.queue l).Nodup
  exclusive {t u : T} {l : L} {mode mode' : Mode} : t ≠ u → c.holds t l = some mode →
    c.holds u l = some mode' → mode.Compatible mode'

variable {c c' : Config T σ L} {t : T}

omit [DecidableEq T] [DecidableEq L] [Preorder L] in
theorem held_start (s : σ) (code : T → Code σ L) (t : T) : (start s code).held t = ∅ := by
  ext l
  simp [Config.held, start]

omit [DecidableEq T] [DecidableEq L] in
theorem Inv.start {s : σ} {code : T → Code σ L} (h : ∀ t, (code t).Ordered ∅) :
    Inv (start s code) where
  ordered t := (held_start s code t).symm ▸ h t
  queued h := by cases h
  nodup _ := List.nodup_nil
  exclusive _ h := by cases h

omit [DecidableEq T] [DecidableEq L] in
/-- A task waits in one queue only. -/
theorem Inv.queue_unique (h : Inv c) {l l' : L} {mode mode' : Mode} (hmem : (t, mode) ∈ c.queue l)
    (hmem' : (t, mode') ∈ c.queue l') : l' = l ∧ mode' = mode := by
  obtain ⟨next, hcode⟩ := h.queued hmem
  obtain ⟨next', hcode'⟩ := h.queued hmem'
  rw [hcode] at hcode'
  injection hcode' with hl hmode
  exact ⟨hl.symm, hmode.symm⟩

omit [DecidableEq T] [DecidableEq L] in
/-- A task that is not at a lock waits in no queue. -/
theorem Inv.not_mem_queue (h : Inv c) (hcode : ∀ l mode next, c.code t ≠ .lock l mode next) (l : L)
    (mode : Mode) : (t, mode) ∉ c.queue l := fun hmem =>
  let ⟨next, hlock⟩ := h.queued hmem
  hcode l mode next hlock

omit [DecidableEq L] in
theorem ordered_advance {s : σ} {next : Code σ L} (hnext : next.Ordered (c.held t))
    (hothers : ∀ u, u ≠ t → (c.code u).Ordered (c.held u)) (u : T) :
    ((c.advance t s next).code u).Ordered (c.held u) := by
  by_cases hut : u = t
  · rwa [hut, c.advance_code_self]
  · rw [c.advance_code_of_ne _ _ hut]
    exact hothers u hut

omit [DecidableEq L] in
/-- A task that waits in no queue can go on. -/
theorem Inv.advance {s : σ} {next : Code σ L} (h : Inv c)
    (hqueue : ∀ l mode, (t, mode) ∉ c.queue l) (hnext : next.Ordered (c.held t)) :
    Inv (c.advance t s next) where
  ordered := ordered_advance hnext fun u _ => h.ordered u
  queued {u l mode} hmem := by
    have hut : u ≠ t := fun hut => hqueue l mode (hut ▸ hmem)
    rw [c.advance_code_of_ne _ _ hut]
    exact h.queued hmem
  nodup := h.nodup
  exclusive := h.exclusive

omit [DecidableEq T] in
/-- A task that does not wait can join the queue of the lock it is at. -/
theorem Inv.request {l : L} {mode : Mode} {next : Code σ L} (h : Inv c)
    (hcode : c.code t = .lock l mode next) (hnew : (t, mode) ∉ c.queue l) :
    Inv (c.setQueue l (c.queue l ++ [(t, mode)])) where
  ordered := h.ordered
  queued {u l' mode'} hmem := by
    rcases c.mem_setQueue hmem with ⟨rfl, hmem⟩ | ⟨_, hmem⟩
    · rcases List.mem_append.1 hmem with hmem | hmem
      · exact h.queued hmem
      · obtain ⟨rfl, rfl⟩ := Prod.mk.inj (List.mem_singleton.1 hmem)
        exact ⟨next, hcode⟩
    · exact h.queued hmem
  nodup := by
    rw [← List.concat_eq_append]
    exact c.nodup_setQueue l ((h.nodup l).concat hnew) h.nodup
  exclusive := h.exclusive

/-- The task at the front of a queue can get the lock, if its holders allow it. -/
theorem Inv.grant {l : L} {mode : Mode} {next : Code σ L} {rest : List (T × Mode)} (h : Inv c)
    (hcode : c.code t = .lock l mode next) (hfront : c.queue l = (t, mode) :: rest)
    (hfree : ∀ u mode', c.holds u l = some mode' → mode.Compatible mode') :
    Inv (((c.setQueue l rest).setHolds t l (some mode)).advance t c.state next) := by
  have hordered := h.ordered t
  rw [hcode] at hordered
  have hnodup := List.nodup_cons.1 (hfront ▸ h.nodup l)
  -- The task leaves its queue.
  have hqueue : ∀ {u l' mode'}, (u, mode') ∈ (c.setQueue l rest).queue l' →
      (u, mode') ∈ c.queue l' ∧ u ≠ t := by
    intro u l' mode' hmem
    have hunique : (u, mode') ∈ c.queue l' → u = t → l' = l ∧ mode' = mode := fun hold hut =>
      h.queue_unique (hfront ▸ List.mem_cons_self) (hut ▸ hold)
    rcases c.mem_setQueue hmem with ⟨rfl, hrest⟩ | ⟨hl, hold⟩
    · have hold : (u, mode') ∈ c.queue l' := hfront ▸ List.mem_cons_of_mem _ hrest
      refine ⟨hold, fun hut => hnodup.1 ?_⟩
      rwa [hut, (hunique hold hut).2] at hrest
    · exact ⟨hold, fun hut => hl (hunique hold hut).1⟩
  refine ⟨?_, fun {u l' mode'} hmem => ?_, c.nodup_setQueue l hnodup.2 h.nodup,
    fun {u v l' m m'} huv hu hv => ?_⟩
  · refine ordered_advance ?_ fun u hut => ?_
    · exact (c.held_setHolds_some t l mode).symm ▸ hordered.2
    · exact (c.held_setHolds_of_ne l (some mode) hut).symm ▸ h.ordered u
  · obtain ⟨hold, hut⟩ := hqueue hmem
    rw [Config.advance_code_of_ne _ _ _ hut]
    exact h.queued hold
  · rcases Config.holds_of_setHolds _ hu with hu | ⟨hut, hl, hmode⟩ <;>
      rcases Config.holds_of_setHolds _ hv with hv | ⟨hvt, hl', hmode'⟩
    · exact h.exclusive huv hu hv
    · obtain rfl := Option.some.inj hmode'
      exact (hfree u m (hl' ▸ hu)).symm
    · obtain rfl := Option.some.inj hmode
      exact hfree v m' (hl ▸ hv)
    · exact absurd (hut.trans hvt.symm) huv

theorem Inv.release {l : L} {next : Code σ L} (h : Inv c) (hcode : c.code t = .unlock l next) :
    Inv ((c.setHolds t l none).advance t c.state next) := by
  have hordered := h.ordered t
  rw [hcode] at hordered
  have hqueue := h.not_mem_queue (t := t) (by simp [hcode])
  refine ⟨?_, fun {u l' mode} hmem => ?_, h.nodup, fun {u v l' m m'} huv hu hv => ?_⟩
  · refine ordered_advance ?_ fun u hut => ?_
    · exact (c.held_setHolds_none t l).symm ▸ hordered.2
    · exact (c.held_setHolds_of_ne l none hut).symm ▸ h.ordered u
  · have hut : u ≠ t := fun hut => hqueue l' mode (hut ▸ hmem)
    rw [Config.advance_code_of_ne _ _ _ hut]
    exact h.queued hmem
  · rcases Config.holds_of_setHolds _ hu with hu | ⟨_, _, hmode⟩
    · rcases Config.holds_of_setHolds _ hv with hv | ⟨_, _, hmode⟩
      · exact h.exclusive huv hu hv
      · cases hmode
    · cases hmode

theorem Inv.step (h : Inv c) (hstep : Step c t c') : Inv c' := by
  have hordered := h.ordered t
  cases hstep with
  | request hcode hnew => exact h.request hcode hnew
  | grant hcode hfront hfree => exact h.grant hcode hfront hfree
  | release hcode => exact h.release hcode
  | access hcode =>
    rw [hcode] at hordered
    exact h.advance (h.not_mem_queue (by simp [hcode])) (hordered _)
  | chooseLeft hcode =>
    rw [hcode] at hordered
    exact h.advance (h.not_mem_queue (by simp [hcode])) hordered.1
  | chooseRight hcode =>
    rw [hcode] at hordered
    exact h.advance (h.not_mem_queue (by simp [hcode])) hordered.2

theorem Inv.run (h : Inv c) (hrun : Relation.ReflTransGen Next c c') : Inv c' := by
  induction hrun with
  | refl => exact h
  | tail _ hnext ih =>
    obtain ⟨t, hstep⟩ := hnext
    exact ih.step hstep

/-! ## Waiting -/

omit [DecidableEq T] [DecidableEq L] [Preorder L] in
theorem Config.Waits.queued {u : T} (h : c.Waits t u) : ∃ l mode, (t, mode) ∈ c.queue l := by
  obtain ⟨l, mode, ahead, behind, hqueue, _⟩ := h
  exact ⟨l, mode, by simp [hqueue]⟩

omit [DecidableEq T] [DecidableEq L] in
/-- A task takes its locks in ascending order. -/
theorem Inv.lt_of_holds (h : Inv c) {l l' : L} {mode mode' : Mode}
    (hholds : c.holds t l = some mode) (hqueue : (t, mode') ∈ c.queue l') : l < l' := by
  obtain ⟨next, hcode⟩ := h.queued hqueue
  have hordered := h.ordered t
  rw [hcode] at hordered
  exact hordered.1 l (by simp [Config.held, hholds])

/-- What is ahead in a list without duplicates comes first. -/
theorem idxOf_lt_of_mem_ahead {α : Type} [BEq α] [LawfulBEq α] {a b : α} {ahead behind : List α}
    (h : (ahead ++ b :: behind).Nodup) (ha : a ∈ ahead) :
    (ahead ++ b :: behind).idxOf a < (ahead ++ b :: behind).idxOf b := by
  have hb : b ∉ ahead := fun hb => (List.disjoint_of_nodup_append h) hb List.mem_cons_self
  rw [List.idxOf_append, List.idxOf_append, if_pos ha, if_neg hb]
  exact (List.idxOf_lt_length_of_mem ha).trans_le (Nat.le_add_left _ _)

omit [DecidableEq L] in
/-- A task waits for tasks ahead of it in its queue, or for tasks that wait for greater
    locks, if they wait at all. -/
theorem Inv.wellFounded_waits [WellFoundedGT L] (h : Inv c) : WellFounded (flip c.Waits) := by
  have hwf : WellFounded (Prod.Lex (fun l l' : L => l > l') (fun i j : ℕ => i < j)) :=
    wellFounded_gt.prod_lex wellFounded_lt
  -- By induction on the lock, from the greatest one down, and on the place in its queue.
  have hqueued : ∀ (p : L × ℕ) (t : T) (mode : Mode), (t, mode) ∈ c.queue p.1 →
      (c.queue p.1).idxOf (t, mode) = p.2 → Acc (flip c.Waits) t := by
    intro p
    induction p using hwf.induction with
    | _ p ih =>
      intro t mode hmem hidx
      refine ⟨t, fun u ⟨l, mode', ahead, behind, hqueue, hu⟩ => ?_⟩
      obtain ⟨rfl, rfl⟩ : l = p.1 ∧ mode' = mode := h.queue_unique hmem (by simp [hqueue])
      rcases hu with ⟨mode'', hahead⟩ | ⟨mode'', hholds, _⟩
      · have hlt := idxOf_lt_of_mem_ahead (hqueue ▸ h.nodup p.1) hahead
        rw [← hqueue, hidx] at hlt
        exact ih (p.1, (c.queue p.1).idxOf (u, mode'')) (.right _ hlt) u mode''
          (by simp [hqueue, hahead]) rfl
      · by_cases hwaits : ∃ l mode, (u, mode) ∈ c.queue l
        · obtain ⟨l', mode, hmem'⟩ := hwaits
          have hlt : p.1 < l' := h.lt_of_holds hholds hmem'
          exact ih (l', (c.queue l').idxOf (u, mode)) (.left _ _ hlt) u mode hmem' rfl
        · exact ⟨u, fun v hv => absurd hv.queued hwaits⟩
  refine ⟨fun t => ?_⟩
  by_cases hwaits : ∃ l mode, (t, mode) ∈ c.queue l
  · obtain ⟨l, mode, hmem⟩ := hwaits
    exact hqueued (l, (c.queue l).idxOf (t, mode)) t mode hmem rfl
  · exact ⟨t, fun u hu => absurd hu.queued hwaits⟩

omit [DecidableEq L] in
/-- No tasks wait for each other in a cycle. -/
theorem Inv.acyclic [WellFoundedGT L] (h : Inv c) (t : T) : ¬Relation.TransGen c.Waits t t := by
  have hirrefl := h.wellFounded_waits.transGen
  rw [← Relation.transGen_swap]
  exact hirrefl.irrefl.irrefl t

/-- A task that has not finished can make a step, or waits, in the end, for one that
    can. -/
theorem Inv.exists_step [WellFoundedGT L] (h : Inv c) (ht : c.code t ≠ .done) :
    ∃ u c', Relation.ReflTransGen c.Waits t u ∧ Step c u c' := by
  induction t using h.wellFounded_waits.induction with
  | _ t ih =>
    have hnext : ∀ u, c.Waits t u → c.code u ≠ .done →
        ∃ u c', Relation.ReflTransGen c.Waits t u ∧ Step c u c' := fun u hwaits hu =>
      let ⟨v, c', hrun, hstep⟩ := ih u hwaits hu
      ⟨v, c', hrun.head hwaits, hstep⟩
    cases hcode : c.code t with
    | done => exact absurd hcode ht
    | unlock l next => exact ⟨t, _, .refl, .release hcode⟩
    | access change next => exact ⟨t, _, .refl, .access hcode⟩
    | choose a b => exact ⟨t, _, .refl, .chooseLeft hcode⟩
    | lock l mode next =>
      by_cases hmem : (t, mode) ∈ c.queue l
      · obtain ⟨ahead, behind, hqueue⟩ := List.append_of_mem hmem
        cases ahead with
        | nil =>
          by_cases hfree : ∀ u mode', c.holds u l = some mode' → mode.Compatible mode'
          · exact ⟨t, _, .refl, .grant hcode hqueue hfree⟩
          · push Not at hfree
            obtain ⟨u, mode', hholds, hexcluded⟩ := hfree
            refine hnext u ⟨l, mode, [], behind, hqueue, .inr ⟨mode', hholds, hexcluded⟩⟩ ?_
            -- A task that has finished holds no lock.
            intro hdone
            have hordered := h.ordered u
            rw [hdone] at hordered
            exact (hordered ▸ Set.notMem_empty l : l ∉ c.held u) (by simp [Config.held, hholds])
        | cons first ahead =>
          obtain ⟨u, mode'⟩ := first
          have hwaits : c.Waits t u :=
            ⟨l, mode, _, behind, hqueue, .inl ⟨mode', List.mem_cons_self⟩⟩
          have hfront : (u, mode') ∈ c.queue l := by simp [hqueue]
          obtain ⟨next', hlock⟩ := h.queued hfront
          exact hnext u hwaits (by simp [hlock])
      · exact ⟨t, _, .refl, .request hcode hmem⟩

/-! ## Tasks on their own -/

omit [DecidableEq T] [DecidableEq L] [Preorder L] in
/-- No other task holds a lock, and none waits for one. -/
structure Config.Solo (c : Config T σ L) (t : T) : Prop where
  queue (l : L) : c.queue l = []
  holds {u : T} (h : u ≠ t) (l : L) : c.holds u l = none

omit [DecidableEq T] [DecidableEq L] [Preorder L] in
theorem Config.Solo.start (s : σ) (code : T → Code σ L) (t : T) :
    (FifoLock.start s code).Solo t := ⟨fun _ => rfl, fun _ _ => rfl⟩

omit [Preorder L] in
theorem Config.Solo.setHolds {l : L} {mode : Option Mode} (h : c.Solo t) :
    (c.setHolds t l mode).Solo t :=
  ⟨h.queue, fun hut l' => (c.setHolds_of_ne mode (.inl hut)).trans (h.holds hut l')⟩

omit [Preorder L] in
/-- A task on its own can get a lock, in two steps. -/
theorem Config.Solo.lock {l : L} {mode : Mode} {next : Code σ L} (h : c.Solo t)
    (hcode : c.code t = .lock l mode next) (hfree : c.holds t l = none) :
    Relation.ReflTransGen Next c ((c.setHolds t l (some mode)).advance t c.state next) := by
  have hrequest : Step c t (c.setQueue l [(t, mode)]) := by
    have hnew : (t, mode) ∉ c.queue l := by simp [h.queue l]
    simpa [h.queue l] using Step.request hcode hnew
  have hback : (c.setQueue l [(t, mode)]).setQueue l [] = c := by
    rw [Config.setQueue, Config.setQueue, Function.update_idem, ← h.queue l,
      Function.update_eq_self]
  have hgrant := Step.grant (c := c.setQueue l [(t, mode)]) (t := t) hcode (c.setQueue_self ..)
    fun u mode' hholds => by
      by_cases hut : u = t
      · cases (hut ▸ hholds : c.holds t l = some mode').symm.trans hfree
      · cases (h.holds hut l).symm.trans hholds
  rw [hback] at hgrant
  exact (Relation.ReflTransGen.single ⟨t, hrequest⟩).tail ⟨t, hgrant⟩

/-- A task on its own can do what its code says, whatever the choices. -/
theorem Config.Solo.exists_run (pick : Bool) {code : Code σ L} (h : c.Solo t)
    (hcode : c.code t = code) (hordered : code.Ordered (c.held t)) :
    ∃ c', Relation.ReflTransGen Next c c' ∧ c'.code t = .done ∧
      c'.state = code.eval pick c.state := by
  induction code generalizing c with
  | done => exact ⟨c, .refl, hcode, rfl⟩
  | lock l mode next ih =>
    have hfree : c.holds t l = none := by
      by_contra hholds
      exact lt_irrefl l (hordered.1 l hholds)
    obtain ⟨c', hrun, hdone⟩ := ih (c := (c.setHolds t l (some mode)).advance t c.state next)
      ⟨h.queue, h.setHolds.holds⟩ (Config.advance_code_self ..)
      ((c.held_setHolds_some t l mode).symm ▸ hordered.2)
    exact ⟨c', (h.lock hcode hfree).trans hrun, hdone⟩
  | unlock l next ih =>
    obtain ⟨c', hrun, hdone⟩ := ih (c := (c.setHolds t l none).advance t c.state next)
      ⟨h.queue, h.setHolds.holds⟩ (Config.advance_code_self ..)
      ((c.held_setHolds_none t l).symm ▸ hordered.2)
    exact ⟨c', hrun.head ⟨t, .release hcode⟩, hdone⟩
  | access change next ih =>
    obtain ⟨c', hrun, hdone⟩ := ih c.state (c := c.advance t (change c.state) (next c.state))
      ⟨h.queue, h.holds⟩ (Config.advance_code_self ..) (hordered _)
    exact ⟨c', hrun.head ⟨t, .access hcode⟩, hdone⟩
  | choose a b iha ihb =>
    cases pick with
    | true =>
      obtain ⟨c', hrun, hdone⟩ := iha (c := c.advance t c.state a)
        ⟨h.queue, h.holds⟩ (Config.advance_code_self ..) hordered.1
      exact ⟨c', hrun.head ⟨t, .chooseLeft hcode⟩, hdone⟩
    | false =>
      obtain ⟨c', hrun, hdone⟩ := ihb (c := c.advance t c.state b)
        ⟨h.queue, h.holds⟩ (Config.advance_code_self ..) hordered.2
      exact ⟨c', hrun.head ⟨t, .chooseRight hcode⟩, hdone⟩

end FifoLock
