import Mathlib.Data.Set.Finite.Lattice
import Rzid.Lib.FifoLock

/-!
# Fair runs of tasks with locks

The infinite runs of any number of tasks that share first-in-first-out read-write locks
(`Run`). A run is fair if no task that can make a step is passed over forever
(`Run.Fair`).

If the codes take the locks in ascending order, and finitely many tasks hold locks at the
start, then in a fair run a task that is at a lock comes to get it (`Run.Fair.gets_all`), and
completes its code (`Run.Fair.completes`), whatever the others do. By induction on the locks,
from the greatest one down: a task that holds a lock comes to release it
(`Run.Fair.releases`), and then those that wait for it come to get it, one by one
(`Run.Fair.gets`).
-/

namespace FifoLock

variable {T σ L : Type} [DecidableEq T] [DecidableEq L]

/-! ## What a step does -/

/-- The tasks that hold a lock. -/
def Config.holders (c : Config T σ L) (l : L) : Set T := {t | l ∈ c.held t}

/-- The task can make a step. -/
def Config.Ready (c : Config T σ L) (t : T) : Prop := ∃ c', Step c t c'

section Step

variable {c c' : Config T σ L} {t u : T} {l : L} {mode : Mode} {next : Code σ L}

/-- A task changes the code of no other task. -/
theorem Step.code_of_ne (h : Step c u c') (ht : t ≠ u) : c'.code t = c.code t := by
  cases h with
  | request hcode hnew => rfl
  | _ => exact Config.advance_code_of_ne _ _ _ ht

/-- A task takes and releases no lock for another task. -/
theorem Step.held_of_ne (h : Step c u c') (ht : t ≠ u) : c'.held t = c.held t := by
  cases h with
  | grant hcode hfront hfree => exact Config.held_setHolds_of_ne _ _ _ ht
  | release hcode => exact Config.held_setHolds_of_ne _ _ _ ht
  | _ => rfl

/-- A task that makes a step joins a queue, leaves a queue at its front, or leaves the
    queues as they are. -/
theorem Step.queue_cases (h : Step c u c') (l : L) :
    c'.queue l = c.queue l ∨ (∃ mode, c'.queue l = c.queue l ++ [(u, mode)]) ∨
      ∃ mode, c.queue l = (u, mode) :: c'.queue l := by
  cases h with
  | @request l' mode next hcode hnew =>
    by_cases hl : l = l'
    · subst hl
      exact .inr (.inl ⟨mode, c.setQueue_self l _⟩)
    · exact .inl (c.setQueue_of_ne _ hl)
  | @grant l' mode next rest hcode hfront hfree =>
    by_cases hl : l = l'
    · subst hl
      exact .inr (.inr ⟨mode, hfront.trans (congrArg _ (c.setQueue_self l rest).symm)⟩)
    · exact .inl (c.setQueue_of_ne _ hl)
  | _ => exact .inl rfl

/-- Everything that a step can do for the task that makes it: at a lock, it joins the queue,
    or leaves it at the front with the lock; otherwise it does what its code says. -/
theorem Step.does (h : Step c t c') :
    match c.code t with
    | .done => False
    | .lock l mode next =>
      ((t, mode) ∉ c.queue l ∧ c'.queue l = c.queue l ++ [(t, mode)] ∧
          c'.code t = .lock l mode next ∧ c'.held t = c.held t) ∨
        (c.queue l = (t, mode) :: c'.queue l ∧ c'.code t = next ∧
          c'.held t = insert l (c.held t))
    | .unlock l next => c'.code t = next ∧ c'.held t = c.held t \ {l}
    | .access change next =>
      c'.code t = next c.state ∧ c'.held t = c.held t ∧ c'.state = change c.state
    | .choose a b => (c'.code t = a ∨ c'.code t = b) ∧ c'.held t = c.held t := by
  cases h with
  | @request l mode next hcode hnew =>
    rw [hcode]
    exact .inl ⟨hnew, c.setQueue_self l _, hcode, rfl⟩
  | @grant l mode next rest hcode hfront hfree =>
    rw [hcode]
    exact .inr ⟨hfront.trans (congrArg _ (c.setQueue_self l rest).symm),
      Config.advance_code_self .., c.held_setHolds_some t l mode⟩
  | release hcode =>
    rw [hcode]
    exact ⟨Config.advance_code_self .., c.held_setHolds_none t _⟩
  | access hcode =>
    rw [hcode]
    exact ⟨Config.advance_code_self .., rfl, rfl⟩
  | chooseLeft hcode =>
    rw [hcode]
    exact ⟨.inl (Config.advance_code_self ..), rfl⟩
  | chooseRight hcode =>
    rw [hcode]
    exact ⟨.inr (Config.advance_code_self ..), rfl⟩

/-- A task that waits for a lock can only get it, at the front of the queue. -/
theorem Step.of_waiting (h : Step c t c') (hcode : c.code t = .lock l mode next)
    (hwaits : (t, mode) ∈ c.queue l) :
    c.queue l = (t, mode) :: c'.queue l ∧ c'.code t = next ∧ c'.held t = insert l (c.held t) := by
  have hdoes := h.does
  rw [hcode] at hdoes
  rcases hdoes with ⟨hnew, _⟩ | hgets
  · exact absurd hwaits hnew
  · exact hgets

/-- Only a task at the front of the queue comes to hold a lock. -/
theorem Step.holders_subset (h : Step c u c')
    (hfront : ∀ mode, (c.queue l).head? ≠ some (u, mode)) : c'.holders l ⊆ c.holders l := by
  intro t ht
  change l ∈ c'.held t at ht
  change l ∈ c.held t
  by_cases hut : t = u
  · subst hut
    have hdoes := h.does
    cases hcode : c.code t with
    | done => exact (hcode ▸ hdoes).elim
    | lock l' mode next =>
      rw [hcode] at hdoes
      rcases hdoes with ⟨_, _, _, hheld⟩ | ⟨hqueue, _, hheld⟩
      · exact hheld ▸ ht
      · rcases (hheld ▸ ht : l ∈ insert l' (c.held t)) with rfl | ht
        · exact absurd (by rw [hqueue]; rfl) (hfront mode)
        · exact ht
    | unlock l' next =>
      rw [hcode] at hdoes
      exact (hdoes.2 ▸ ht : l ∈ c.held t \ {l'}).1
    | access change next =>
      rw [hcode] at hdoes
      exact hdoes.2.1 ▸ ht
    | choose a b =>
      rw [hcode] at hdoes
      exact hdoes.2 ▸ ht
  · exact (h.held_of_ne hut) ▸ ht

/-- A step adds at most the task that makes it to the holders of a lock. -/
theorem Step.holders_subset_insert (h : Step c u c') : c'.holders l ⊆ insert u (c.holders l) := by
  intro t ht
  by_cases hut : t = u
  · exact .inl hut
  · exact .inr ((h.held_of_ne hut) ▸ ht : l ∈ c.held t)

/-- A task that is not at a lock can make a step, unless it has finished. -/
theorem ready_of_not_lock (hdone : c.code t ≠ .done)
    (hcode : ∀ l mode next, c.code t ≠ .lock l mode next) : c.Ready t := by
  cases h : c.code t with
  | done => exact absurd h hdone
  | lock l mode next => exact absurd h (hcode l mode next)
  | unlock l next => exact ⟨_, .release h⟩
  | access change next => exact ⟨_, .access h⟩
  | choose a b => exact ⟨_, .chooseLeft h⟩

end Step

/-! ## Runs -/

/-- An infinite run, with the tasks that make its steps. At other moments, nothing
    happens. -/
structure Run (T σ L : Type) [DecidableEq T] [DecidableEq L] where
  state : ℕ → Config T σ L
  actor : ℕ → Option T
  step {n : ℕ} {t : T} (h : actor n = some t) : Step (state n) t (state (n + 1))
  idle {n : ℕ} (h : actor n = none) : state (n + 1) = state n

namespace Run

/-- A task that can make a step does so in the end, unless it becomes unable to. -/
def Fair (r : Run T σ L) : Prop :=
  ∀ t n, ∃ m, n ≤ m ∧ (r.actor m = some t ∨ ¬(r.state m).Ready t)

variable {r : Run T σ L} {t : T} {n m : ℕ}

/-- What holds at a time, and is kept by all steps that the task does not make, holds until
    the task makes one. -/
theorem holds_until {P : Config T σ L → Prop} (hP : P (r.state n))
    (hkeep : ∀ k u, n ≤ k → k < m → r.actor k = some u → u ≠ t → P (r.state k) →
      P (r.state (k + 1)))
    (hnever : ∀ k, n ≤ k → k < m → r.actor k ≠ some t) (hle : n ≤ m) : P (r.state m) := by
  induction m, hle using Nat.le_induction with
  | base => exact hP
  | succ m hle ih =>
    have hm : P (r.state m) := ih
      (fun k u hk hkm => hkeep k u hk (hkm.trans (Nat.lt_succ_self m)))
      fun k hk hkm => hnever k hk (hkm.trans (Nat.lt_succ_self m))
    cases hactor : r.actor m with
    | none => exact (r.idle hactor) ▸ hm
    | some u =>
      refine hkeep m u hle (Nat.lt_succ_self m) hactor (fun hut => ?_) hm
      exact hnever m hle (Nat.lt_succ_self m) (hut ▸ hactor)

/-- A task that makes no step keeps its code and its locks. -/
theorem kept (hle : n ≤ m) (hnever : ∀ k, n ≤ k → k < m → r.actor k ≠ some t) :
    (r.state m).code t = (r.state n).code t ∧ (r.state m).held t = (r.state n).held t := by
  refine holds_until (P := fun c => c.code t = (r.state n).code t ∧
    c.held t = (r.state n).held t) ⟨rfl, rfl⟩ (fun k u _ _ hactor hut hk => ?_) hnever hle
  have hstep := r.step hactor
  exact ⟨(hstep.code_of_ne hut.symm).trans hk.1, (hstep.held_of_ne hut.symm).trans hk.2⟩

theorem exists_first (h : ∃ m, n ≤ m ∧ r.actor m = some t) :
    ∃ m, n ≤ m ∧ r.actor m = some t ∧ ∀ k, n ≤ k → k < m → r.actor k ≠ some t := by
  classical
  exact ⟨Nat.find h, (Nat.find_spec h).1, (Nat.find_spec h).2,
    fun k hk hlt hactor => Nat.find_min h hlt ⟨hk, hactor⟩⟩

/-- A task that can make a step as long as it makes none comes to make one. -/
theorem Fair.acts (hfair : r.Fair) {P : Config T σ L → Prop} (hP : P (r.state n))
    (hkeep : ∀ k u, n ≤ k → r.actor k = some u → u ≠ t → P (r.state k) → P (r.state (k + 1)))
    (hready : ∀ c, P c → c.Ready t) :
    ∃ m, n ≤ m ∧ r.actor m = some t ∧ (∀ k, n ≤ k → k < m → r.actor k ≠ some t) ∧
      P (r.state m) := by
  have hholds : ∀ m, n ≤ m → (∀ k, n ≤ k → k < m → r.actor k ≠ some t) → P (r.state m) :=
    fun m hle hnever => holds_until hP (fun k u hk _ => hkeep k u hk) hnever hle
  have hexists : ∃ m, n ≤ m ∧ r.actor m = some t := by
    by_contra hnever
    push Not at hnever
    obtain ⟨m, hle, hactor | hblocked⟩ := hfair t n
    · exact hnever m hle hactor
    · exact hblocked (hready _ (hholds m hle fun k hk _ => hnever k hk))
  obtain ⟨m, hle, hactor, hfirst⟩ := exists_first hexists
  exact ⟨m, hle, hactor, hfirst, hholds m hle hfirst⟩

/-- A task that is at no lock comes to make a step. -/
theorem Fair.acts_of_not_lock (hfair : r.Fair) (hdone : (r.state n).code t ≠ .done)
    (hlock : ∀ l mode next, (r.state n).code t ≠ .lock l mode next) :
    ∃ m, n ≤ m ∧ r.actor m = some t ∧ (r.state m).code t = (r.state n).code t ∧
      (r.state m).held t = (r.state n).held t := by
  obtain ⟨m, hle, hactor, hfirst, _⟩ := hfair.acts (t := t) (n := n)
    (P := fun c => c.code t = (r.state n).code t) rfl
    (fun k u _ hactor hut hk => ((r.step hactor).code_of_ne hut.symm).trans hk)
    fun c hc => ready_of_not_lock (hc ▸ hdone) (hc ▸ hlock)
  exact ⟨m, hle, hactor, kept hle hfirst⟩

theorem Fair.unlocks (hfair : r.Fair) {l : L} {next : Code σ L}
    (hcode : (r.state n).code t = .unlock l next) :
    ∃ m, n ≤ m ∧ (r.state m).code t = next ∧ (r.state m).held t = (r.state n).held t \ {l} := by
  obtain ⟨m, hle, hactor, hcode', hheld⟩ :=
    hfair.acts_of_not_lock (t := t) (n := n) (by simp [hcode]) (by simp [hcode])
  have hdoes := (r.step hactor).does
  rw [hcode', hcode, hheld] at hdoes
  exact ⟨m + 1, hle.trans (Nat.le_succ m), hdoes⟩

/-- A task that is at an access comes to make it. -/
theorem Fair.accesses (hfair : r.Fair) {change : σ → σ} {next : σ → Code σ L}
    (hcode : (r.state n).code t = .access change next) :
    ∃ m, n ≤ m ∧ r.actor m = some t ∧ (r.state (m + 1)).code t = next (r.state m).state ∧
      (r.state (m + 1)).held t = (r.state n).held t ∧
        (r.state (m + 1)).state = change (r.state m).state := by
  obtain ⟨m, hle, hactor, hcode', hheld⟩ :=
    hfair.acts_of_not_lock (t := t) (n := n) (by simp [hcode]) (by simp [hcode])
  have hdoes := (r.step hactor).does
  rw [hcode', hcode, hheld] at hdoes
  exact ⟨m, hle, hactor, hdoes⟩

theorem Fair.chooses (hfair : r.Fair) {a b : Code σ L} (hcode : (r.state n).code t = .choose a b) :
    ∃ m, n ≤ m ∧ ((r.state m).code t = a ∨ (r.state m).code t = b) ∧
      (r.state m).held t = (r.state n).held t := by
  obtain ⟨m, hle, hactor, hcode', hheld⟩ :=
    hfair.acts_of_not_lock (t := t) (n := n) (by simp [hcode]) (by simp [hcode])
  have hdoes := (r.step hactor).does
  rw [hcode', hcode, hheld] at hdoes
  exact ⟨m + 1, hle.trans (Nat.le_succ m), hdoes⟩

theorem finite_holders {l : L} (h : ((r.state 0).holders l).Finite) (n : ℕ) :
    ((r.state n).holders l).Finite := by
  induction n with
  | zero => exact h
  | succ n ih =>
    cases hactor : r.actor n with
    | none => exact (r.idle hactor) ▸ ih
    | some t => exact (ih.insert t).subset (r.step hactor).holders_subset_insert

/-! ## Completing a code -/

/-- The tasks that are at the lock come to get it. -/
def Gets (r : Run T σ L) (l : L) : Prop :=
  ∀ ⦃t n mode next⦄, (r.state n).code t = .lock l mode next →
    ∃ m, n ≤ m ∧ (r.state m).code t = next ∧ (r.state m).held t = insert l ((r.state n).held t)

/-- In a fair run, a task completes what it has to do first. By induction on its code. -/
theorem Fair.completes (hfair : r.Fair) (hgets : ∀ l, r.Gets l) {a b : Code σ L}
    (hcode : (r.state n).code t = a.seq b) : ∃ m, n ≤ m ∧ (r.state m).code t = b := by
  induction a generalizing n with
  | done => exact ⟨n, le_rfl, hcode⟩
  | lock l mode next ih =>
    obtain ⟨m, hle, hnext, _⟩ := hgets l hcode
    obtain ⟨m', hle', hb⟩ := ih hnext
    exact ⟨m', hle.trans hle', hb⟩
  | unlock l next ih =>
    obtain ⟨m, hle, hnext, _⟩ := hfair.unlocks hcode
    obtain ⟨m', hle', hb⟩ := ih hnext
    exact ⟨m', hle.trans hle', hb⟩
  | access change next ih =>
    obtain ⟨m, hle, _, hnext, _⟩ := hfair.accesses hcode
    obtain ⟨m', hle', hb⟩ := ih _ hnext
    exact ⟨m', (hle.trans (Nat.le_succ m)).trans hle', hb⟩
  | choose a a' iha iha' =>
    obtain ⟨m, hle, hnext | hnext, _⟩ := hfair.chooses hcode
    · obtain ⟨m', hle', hb⟩ := iha hnext
      exact ⟨m', hle.trans hle', hb⟩
    · obtain ⟨m', hle', hb⟩ := iha' hnext
      exact ⟨m', hle.trans hle', hb⟩

/-- In a fair run, a task completes a list of codes that it has to do first. -/
theorem Fair.completes_all (hfair : r.Fair) (hgets : ∀ l, r.Gets l) {codes : List (Code σ L)}
    {b : Code σ L} (hcode : (r.state n).code t = codes.foldr Code.seq b) :
    ∃ m, n ≤ m ∧ (r.state m).code t = b := by
  induction codes generalizing n with
  | nil => exact ⟨n, le_rfl, hcode⟩
  | cons a codes ih =>
    obtain ⟨m, hle, hrest⟩ := hfair.completes hgets hcode
    obtain ⟨m', hle', hb⟩ := ih hrest
    exact ⟨m', hle.trans hle', hb⟩

/-! ## Finite runs -/

/-- A step, and then a run. -/
def cons (c : Config T σ L) (t : T) (r : Run T σ L) (h : Step c t (r.state 0)) : Run T σ L where
  state
    | 0 => c
    | n + 1 => r.state n
  actor
    | 0 => some t
    | n + 1 => r.actor n
  step {n u} hactor := by
    cases n with
    | zero =>
      cases hactor
      exact h
    | succ n => exact r.step hactor
  idle {n} hactor := by
    cases n with
    | zero => cases hactor
    | succ n => exact r.idle hactor

/-- A finite run in which all tasks finish goes on as a fair run, in which nothing happens any
    more. -/
theorem exists_fair {c c' : Config T σ L} (h : Relation.ReflTransGen Next c c')
    (hdone : ∀ t, c'.code t = .done) : ∃ r : Run T σ L, r.state 0 = c ∧ r.Fair := by
  induction h using Relation.ReflTransGen.head_induction_on with
  | refl =>
    refine ⟨⟨fun _ => c', fun _ => none, fun h => (by cases h), fun _ => rfl⟩, rfl,
      fun t n => ⟨n, le_rfl, .inr ?_⟩⟩
    rintro ⟨c'', hstep⟩
    have hdoes := hstep.does
    rwa [hdone] at hdoes
  | head hnext _ ih =>
    obtain ⟨t, hstep⟩ := hnext
    obtain ⟨r, hstart, hfair⟩ := ih
    refine ⟨cons _ t r (hstart ▸ hstep), rfl, fun u n => ?_⟩
    obtain ⟨m, hle, hm⟩ := hfair u n
    exact ⟨m + 1, hle.trans (Nat.le_succ m), hm⟩

/-! ## Getting a lock -/

section Lock

variable {l : L} {mode : Mode} {next : Code σ L}

/-- A task at a lock comes to wait for it. -/
theorem Fair.waits (hfair : r.Fair) (hcode : (r.state n).code t = .lock l mode next)
    (hnew : (t, mode) ∉ (r.state n).queue l) :
    ∃ m, n ≤ m ∧ (r.state m).code t = .lock l mode next ∧
      (r.state m).held t = (r.state n).held t ∧ (t, mode) ∈ (r.state m).queue l := by
  obtain ⟨m, hle, hactor, hfirst, hcode', hnew'⟩ := hfair.acts (t := t) (n := n)
    (P := fun c => c.code t = .lock l mode next ∧ (t, mode) ∉ c.queue l) ⟨hcode, hnew⟩
    (fun k u _ hactor hut hk => by
      have hstep := r.step hactor
      refine ⟨(hstep.code_of_ne hut.symm).trans hk.1, fun hmem => hk.2 ?_⟩
      -- Another task does not join the queue for it.
      rcases hstep.queue_cases l with hqueue | ⟨mode', hqueue⟩ | ⟨mode', hqueue⟩
      · exact hqueue ▸ hmem
      · rw [hqueue] at hmem
        rcases List.mem_append.1 hmem with hmem | hmem
        · exact hmem
        · exact absurd (Prod.mk.inj (List.mem_singleton.1 hmem)).1.symm hut
      · exact hqueue ▸ List.mem_cons_of_mem _ hmem)
    fun c hc => ⟨_, .request hc.1 hc.2⟩
  have hdoes := (r.step hactor).does
  rw [hcode'] at hdoes
  rcases hdoes with ⟨_, hqueue, hcode'', hheld⟩ | ⟨hqueue, _, _⟩
  · exact ⟨m + 1, hle.trans (Nat.le_succ m), hcode'', hheld.trans (kept hle hfirst).2,
      hqueue ▸ List.mem_append_right _ (List.mem_singleton_self _)⟩
  · exact absurd (hqueue ▸ List.mem_cons_self) hnew'

/-- As long as the task at the front of a queue makes no step, the others can only join the
    queue behind it, and release the lock. -/
theorem front_kept {rest : List (T × Mode)} (hfront : (r.state n).queue l = (t, mode) :: rest)
    (hle : n ≤ m) (hnever : ∀ k, n ≤ k → k < m → r.actor k ≠ some t) :
    (∃ more, (r.state m).queue l = (t, mode) :: (rest ++ more)) ∧
      (r.state m).holders l ⊆ (r.state n).holders l := by
  refine holds_until (P := fun c => (∃ more, c.queue l = (t, mode) :: (rest ++ more)) ∧
    c.holders l ⊆ (r.state n).holders l) ⟨⟨[], by rw [hfront, List.append_nil]⟩, subset_rfl⟩
    (fun k u _ _ hactor hut hk => ?_) hnever hle
  have hstep := r.step hactor
  obtain ⟨⟨more, hqueue⟩, hholders⟩ := hk
  have hnotfront : ∀ mode', ((r.state k).queue l).head? ≠ some (u, mode') := fun mode' hhead => by
    rw [hqueue] at hhead
    exact hut (Prod.mk.inj (Option.some.inj hhead)).1.symm
  refine ⟨?_, (hstep.holders_subset hnotfront).trans hholders⟩
  rcases hstep.queue_cases l with hqueue' | ⟨mode', hqueue'⟩ | ⟨mode', hqueue'⟩
  · exact ⟨more, hqueue'.trans hqueue⟩
  · exact ⟨more ++ [(u, mode')], by rw [hqueue', hqueue, List.cons_append, List.append_assoc]⟩
  · exact absurd (by rw [hqueue']; rfl) (hnotfront mode')

variable [Preorder L]

/-- The task at the front of a queue comes to make a step, if the tasks that hold the lock
    come to release it. -/
theorem Fair.acts_at_front (hfair : r.Fair) (hinv : ∀ n, Inv (r.state n))
    (hfinite : ((r.state n).holders l).Finite)
    (hreleases : ∀ u n, u ∈ (r.state n).holders l → ∃ m, n ≤ m ∧ u ∉ (r.state m).holders l)
    {rest : List (T × Mode)} (hfront : (r.state n).queue l = (t, mode) :: rest) :
    ∃ m, n ≤ m ∧ r.actor m = some t ∧ ∀ k, n ≤ k → k < m → r.actor k ≠ some t := by
  refine exists_first ?_
  by_contra hnever
  push Not at hnever
  have hkept : ∀ m, n ≤ m → ∀ m', m ≤ m' →
      (∃ more, (r.state m').queue l = (t, mode) :: (rest ++ more)) ∧
        (r.state m').holders l ⊆ (r.state m).holders l := by
    intro m hm m' hm'
    obtain ⟨⟨more, hqueue⟩, _⟩ := front_kept hfront hm fun k hk _ => hnever k hk
    obtain ⟨⟨more', hqueue'⟩, hholders⟩ :=
      front_kept hqueue hm' fun k hk _ => hnever k (hm.trans hk)
    exact ⟨⟨more ++ more', by rw [hqueue', List.append_assoc]⟩, hholders⟩
  -- From some time on, none of the tasks holds the lock that held it at the start.
  have hreleased : ∀ u, ∃ m, n ≤ m ∧ u ∉ (r.state m).holders l := fun u => by
    by_cases hu : u ∈ (r.state n).holders l
    · exact hreleases u n hu
    · exact ⟨n, le_rfl, hu⟩
  choose time htime hgone using hreleased
  obtain ⟨bound, hbound⟩ := (hfinite.image time).bddAbove
  have hfree : ∀ m, max n bound ≤ m → ∀ u, u ∉ (r.state m).holders l := fun m hm u hu => by
    have hle : n ≤ m := (le_max_left _ _).trans hm
    have hfirst : u ∈ (r.state n).holders l := (hkept n le_rfl m hle).2 hu
    have hlate : time u ≤ m := (hbound ⟨u, hfirst, rfl⟩).trans ((le_max_right _ _).trans hm)
    exact hgone u ((hkept (time u) (htime u) m hlate).2 hu)
  obtain ⟨m, hle, hactor | hblocked⟩ := hfair t (max n bound)
  · exact hnever m ((le_max_left _ _).trans hle) hactor
  · obtain ⟨⟨more, hqueue⟩, _⟩ := hkept n le_rfl m ((le_max_left _ _).trans hle)
    obtain ⟨next, hcode⟩ := (hinv m).queued (hqueue ▸ List.mem_cons_self)
    refine hblocked ⟨_, .grant hcode hqueue fun u mode' hholds => ?_⟩
    exact absurd (show l ∈ (r.state m).held u by simp [Config.held, hholds]) (hfree m hle u)

/-- A task that waits for a lock comes to get it, if the tasks that hold the lock come to
    release it. By induction on the tasks ahead of it. -/
theorem Fair.gets_of_waiting (hfair : r.Fair) (hinv : ∀ n, Inv (r.state n))
    (hfinite : ∀ n, ((r.state n).holders l).Finite)
    (hreleases : ∀ u n, u ∈ (r.state n).holders l → ∃ m, n ≤ m ∧ u ∉ (r.state m).holders l)
    {ahead behind : List (T × Mode)} (hcode : (r.state n).code t = .lock l mode next)
    (hqueue : (r.state n).queue l = ahead ++ (t, mode) :: behind) :
    ∃ m, n ≤ m ∧ (r.state m).code t = next ∧
      (r.state m).held t = insert l ((r.state n).held t) := by
  induction ahead generalizing n behind with
  | nil =>
    obtain ⟨m, hle, hactor, hfirst⟩ := hfair.acts_at_front hinv (hfinite n) hreleases hqueue
    obtain ⟨⟨more, hqueue'⟩, _⟩ := front_kept hqueue hle hfirst
    obtain ⟨hcode', hheld⟩ := kept hle hfirst
    obtain ⟨_, hnext, hheld'⟩ := (r.step hactor).of_waiting (hcode'.trans hcode)
      (hqueue' ▸ List.mem_cons_self)
    exact ⟨m + 1, hle.trans (Nat.le_succ m), hnext, hheld'.trans (by rw [hheld])⟩
  | cons first ahead ih =>
    obtain ⟨u, mode'⟩ := first
    obtain ⟨m, hle, hactor, hfirst⟩ := hfair.acts_at_front hinv (hfinite n) hreleases hqueue
    have hut : t ≠ u := by
      rintro rfl
      have hmem : (t, mode') ∈ (r.state n).queue l := hqueue ▸ List.mem_cons_self
      have hmem' : (t, mode) ∈ (r.state n).queue l := by simp [hqueue]
      obtain rfl := ((hinv n).queue_unique hmem hmem').2
      exact (List.nodup_cons.1 (hqueue ▸ (hinv n).nodup l)).1 (by simp)
    -- The task is not at the front, and makes no step before the first one does.
    have hnever : ∀ k, n ≤ k → k < m + 1 → r.actor k ≠ some t := by
      intro k' hk' hkm' hacts
      obtain ⟨k, hk, hactor', hfirst'⟩ := exists_first ⟨k', hk', hacts⟩
      have hkk' : k ≤ k' := le_of_not_gt fun hlt => hfirst' k' hk' hlt hacts
      obtain ⟨⟨more, hqueue'⟩, _⟩ := front_kept hqueue hk
        fun i hi hik => hfirst i hi (hik.trans_le (hkk'.trans (Nat.le_of_lt_succ hkm')))
      have hgets := (r.step hactor').of_waiting ((kept hk hfirst').1.trans hcode)
        (by simp [hqueue'])
      rw [hqueue'] at hgets
      exact hut (Prod.mk.inj (List.cons.inj hgets.1).1).1.symm
    obtain ⟨hcode', hheld⟩ := kept (hle.trans (Nat.le_succ m)) hnever
    obtain ⟨⟨more, hqueue'⟩, _⟩ := front_kept hqueue hle hfirst
    obtain ⟨next', hcodeu⟩ := (hinv m).queued (hqueue' ▸ List.mem_cons_self)
    obtain ⟨hleaves, _⟩ := (r.step hactor).of_waiting hcodeu (hqueue' ▸ List.mem_cons_self)
    have hrest : (r.state (m + 1)).queue l = ahead ++ (t, mode) :: (behind ++ more) := by
      rw [hqueue'] at hleaves
      simpa using (List.cons.inj hleaves).2.symm
    obtain ⟨m', hle', hnext, hheld'⟩ := ih (hcode'.trans hcode) hrest
    exact ⟨m', (hle.trans (Nat.le_succ m)).trans hle', hnext, hheld'.trans (by rw [hheld])⟩

theorem Fair.gets (hfair : r.Fair) (hinv : ∀ n, Inv (r.state n))
    (hfinite : ∀ n, ((r.state n).holders l).Finite)
    (hreleases : ∀ u n, u ∈ (r.state n).holders l → ∃ m, n ≤ m ∧ u ∉ (r.state m).holders l) :
    r.Gets l := by
  have hwaiting : ∀ {t n mode next}, (r.state n).code t = .lock l mode next →
      (t, mode) ∈ (r.state n).queue l → ∃ m, n ≤ m ∧ (r.state m).code t = next ∧
        (r.state m).held t = insert l ((r.state n).held t) := fun hcode hmem =>
    let ⟨_, _, hqueue⟩ := List.append_of_mem hmem
    hfair.gets_of_waiting hinv hfinite hreleases hcode hqueue
  intro t n mode next hcode
  by_cases hmem : (t, mode) ∈ (r.state n).queue l
  · exact hwaiting hcode hmem
  · obtain ⟨m, hle, hcode', hheld, hmem'⟩ := hfair.waits hcode hmem
    obtain ⟨m', hle', hnext, hheld'⟩ := hwaiting hcode' hmem'
    exact ⟨m', hle.trans hle', hnext, hheld'.trans (by rw [hheld])⟩

/-! ## Releasing a lock -/

/-- A task that holds a lock comes to release it, if those at greater locks come to get
    them. By induction on its code. -/
theorem Fair.releases (hfair : r.Fair) (hinv : ∀ n, Inv (r.state n))
    (hgets : ∀ l', l < l' → r.Gets l') {code : Code σ L} (hcode : (r.state n).code t = code)
    (hholds : l ∈ (r.state n).held t) : ∃ m, n ≤ m ∧ l ∉ (r.state m).held t := by
  have hordered := (hinv n).ordered t
  rw [hcode] at hordered
  induction code generalizing n with
  | done => exact absurd (hordered ▸ hholds : l ∈ (∅ : Set L)) (Set.notMem_empty l)
  | lock l' mode next ih =>
    obtain ⟨m, hle, hnext, hheld⟩ := hgets l' (hordered.1 l hholds) hcode
    obtain ⟨m', hle', hgone⟩ := ih hnext (hheld ▸ Set.mem_insert_of_mem l' hholds)
      (hheld ▸ hordered.2)
    exact ⟨m', hle.trans hle', hgone⟩
  | unlock l' next ih =>
    obtain ⟨m, hle, hnext, hheld⟩ := hfair.unlocks hcode
    by_cases hl : l = l'
    · refine ⟨m, hle, fun hmem => ?_⟩
      rw [hheld] at hmem
      exact hmem.2 hl
    · obtain ⟨m', hle', hgone⟩ := ih hnext (hheld ▸ ⟨hholds, hl⟩) (hheld ▸ hordered.2)
      exact ⟨m', hle.trans hle', hgone⟩
  | access change next ih =>
    obtain ⟨m, hle, _, hnext, hheld, _⟩ := hfair.accesses hcode
    obtain ⟨m', hle', hgone⟩ := ih _ hnext (hheld ▸ hholds) (hheld ▸ hordered _)
    exact ⟨m', (hle.trans (Nat.le_succ m)).trans hle', hgone⟩
  | choose a b iha ihb =>
    obtain ⟨m, hle, hnext | hnext, hheld⟩ := hfair.chooses hcode
    · obtain ⟨m', hle', hgone⟩ := iha hnext (hheld ▸ hholds) (hheld ▸ hordered.1)
      exact ⟨m', hle.trans hle', hgone⟩
    · obtain ⟨m', hle', hgone⟩ := ihb hnext (hheld ▸ hholds) (hheld ▸ hordered.2)
      exact ⟨m', hle.trans hle', hgone⟩

end Lock

/-! ## All locks -/

variable [Preorder L]

theorem inv (h : Inv (r.state 0)) (n : ℕ) : Inv (r.state n) := by
  induction n with
  | zero => exact h
  | succ n ih =>
    cases hactor : r.actor n with
    | none => exact (r.idle hactor) ▸ ih
    | some t => exact ih.step (r.step hactor)

/-- In a fair run, a task that is at a lock comes to get it. By induction on the locks, from
    the greatest one down. -/
theorem Fair.gets_all [WellFoundedGT L] (hfair : r.Fair) (hinv : Inv (r.state 0))
    (hfinite : ∀ l, ((r.state 0).holders l).Finite) (l : L) : r.Gets l := by
  induction l using WellFoundedGT.induction with
  | _ l ih =>
    exact hfair.gets (inv hinv) (fun n => finite_holders (hfinite l) n)
      fun u n hholds => hfair.releases (inv hinv) ih rfl hholds

end Run

end FifoLock
