import Mathlib.Data.List.Sort
import Rzid.Lib.FifoLockFair

/-!
# The accesses of a task, in order

A code can branch on what it finds, and choose. Still, of some accesses it may be known that
it makes them, one after the other, and that every other access keeps a part of the state
(`Code.Makes`).

Then in a run, each of these accesses is a step of its own, in this order, and at no other
step does the task change that part of the state: up to any time (`Run.makes`), and for all
times, once the task has finished (`Run.makes_of_done`).
-/

namespace FifoLock

variable {T σ L : Type} {α ε : Type*}

/-! ## Codes -/

namespace Code

variable {a b c : Code σ L}

theorem seq_assoc (a b c : Code σ L) : (a.seq b).seq c = a.seq (b.seq c) := by
  induction a with
  | done => rfl
  | lock l mode next ih => exact congrArg (lock l mode) ih
  | unlock l next ih => exact congrArg (unlock l) ih
  | access change next ih => exact congrArg (access change) (funext ih)
  | choose a a' ih ih' => exact congrArg₂ choose ih ih'

@[simp] theorem seq_done (a : Code σ L) : a.seq done = a := by
  induction a with
  | done => rfl
  | lock l mode next ih => exact congrArg (lock l mode) ih
  | unlock l next ih => exact congrArg (unlock l) ih
  | access change next ih => exact congrArg (access change) (funext ih)
  | choose a a' ih ih' => exact congrArg₂ choose ih ih'

/-- Whatever it finds and chooses, the code makes the accesses `es`, one after the other, and
    keeps `f` of the state at every other access. A code is at the access `e` if it is
    `At e`. -/
def Makes (f : σ → α) (At : ε → Code σ L → Prop) : Code σ L → List ε → Prop
  | done, es => es = []
  | lock _ _ next, es => next.Makes f At es
  | unlock _ next, es => next.Makes f At es
  | access change next, es =>
    ((∀ s, f (change s) = f s) ∧ ∀ s, (next s).Makes f At es) ∨
      ∃ e es', es = e :: es' ∧ At e (access change next) ∧ ∀ s, (next s).Makes f At es'
  | choose a b, es => a.Makes f At es ∧ b.Makes f At es

variable {f : σ → α} {At : ε → Code σ L → Prop} {es es' : List ε}

theorem Makes.seq (hAt : ∀ e a b, At e a → At e (a.seq b)) (ha : a.Makes f At es)
    (hb : b.Makes f At es') : (a.seq b).Makes f At (es ++ es') := by
  induction a generalizing es with
  | done =>
    obtain rfl : es = [] := ha
    exact hb
  | lock l mode next ih => exact ih ha
  | unlock l next ih => exact ih ha
  | access change next ih =>
    rcases ha with ⟨hkeeps, hnext⟩ | ⟨e, rest, rfl, hat, hnext⟩
    · exact .inl ⟨hkeeps, fun s => ih s (hnext s)⟩
    · exact .inr ⟨e, rest ++ es', rfl, hAt _ _ b hat, fun s => ih s (hnext s)⟩
  | choose a a' ih ih' => exact ⟨ih ha.1, ih' ha.2⟩

/-- The codes of a list, one after the other. -/
theorem Makes.foldr_seq {β : Type*} (hAt : ∀ e a b, At e a → At e (a.seq b)) {code : β → Code σ L}
    {es : β → List ε} (h : ∀ b, (code b).Makes f At (es b)) (l : List β) :
    ((l.map code).foldr Code.seq done).Makes f At (l.flatMap es) := by
  induction l with
  | nil => exact rfl
  | cons b l ih => exact (h b).seq hAt ih

end Code

/-! ## Runs -/

variable [DecidableEq T] [DecidableEq L] {f : σ → α} {At : ε → Code σ L → Prop} {es : List ε}

/-- A step of the task is the next access, or keeps `f` of the state. -/
theorem Step.makes {c c' : Config T σ L} {t : T} (h : Step c t c')
    (hmakes : (c.code t).Makes f At es) :
    (f c'.state = f c.state ∧ (c'.code t).Makes f At es) ∨
      ∃ e es', es = e :: es' ∧ At e (c.code t) ∧ (c'.code t).Makes f At es' := by
  cases h with
  | request hcode hnew => exact .inl ⟨rfl, hmakes⟩
  | grant hcode hfront hfree =>
    rw [hcode] at hmakes
    refine .inl ⟨rfl, ?_⟩
    rw [Config.advance_code_self]
    exact hmakes
  | release hcode =>
    rw [hcode] at hmakes
    refine .inl ⟨rfl, ?_⟩
    rw [Config.advance_code_self]
    exact hmakes
  | access hcode =>
    rw [hcode] at hmakes ⊢
    rw [Config.advance_code_self]
    rcases hmakes with ⟨hkeeps, hnext⟩ | ⟨e, es', hes, hat, hnext⟩
    · exact .inl ⟨hkeeps _, hnext _⟩
    · exact .inr ⟨e, es', hes, hat, hnext _⟩
  | chooseLeft hcode =>
    rw [hcode] at hmakes
    refine .inl ⟨rfl, ?_⟩
    rw [Config.advance_code_self]
    exact hmakes.1
  | chooseRight hcode =>
    rw [hcode] at hmakes
    refine .inl ⟨rfl, ?_⟩
    rw [Config.advance_code_self]
    exact hmakes.2

namespace Run

variable {r : Run T σ L} {t : T} {n m : ℕ}

/-- The step `k` of the run is the access `e` of the task. -/
def MakesAt (r : Run T σ L) (t : T) (At : ε → Code σ L → Prop) (k : ℕ) (e : ε) : Prop :=
  r.actor k = some t ∧ At e ((r.state k).code t)

/-- Up to any time, the task has made the first ones of the accesses, each at a step of its own,
    in their order; at every other step it has kept `f` of the state. -/
theorem makes (hmakes : ((r.state n).code t).Makes f At es) (hle : n ≤ m) :
    ∃ steps made rest, es = made ++ rest ∧ ((r.state m).code t).Makes f At rest ∧
      steps.SortedLT ∧ (∀ k ∈ steps, k < m) ∧ List.Forall₂ (r.MakesAt t At) steps made ∧
        ∀ k, n ≤ k → k < m → r.actor k = some t → k ∉ steps →
          f (r.state (k + 1)).state = f (r.state k).state := by
  induction m, hle using Nat.le_induction with
  | base =>
    exact ⟨[], [], es, rfl, hmakes, List.sortedLT_iff_pairwise.2 .nil, nofun, .nil,
      fun k hk hkn => absurd hk hkn.not_ge⟩
  | succ m hle ih =>
    obtain ⟨steps, made, rest, rfl, hrest, hsorted, hlt, hmade, hkeeps⟩ := ih
    have hlt' : ∀ k ∈ steps, k < m + 1 := fun k hk => (hlt k hk).trans (Nat.lt_succ_self m)
    by_cases hactor : r.actor m = some t
    · rcases (r.step hactor).makes hrest with ⟨hsame, hrest⟩ | ⟨e, rest, rfl, hat, hrest⟩
      · refine ⟨steps, made, rest, rfl, hrest, hsorted, hlt', hmade, fun k hk hkm hk' hnot => ?_⟩
        rcases Nat.lt_succ_iff_lt_or_eq.1 hkm with hkm | rfl
        · exact hkeeps k hk hkm hk' hnot
        · exact hsame
      · -- The task makes the next access.
        refine ⟨steps ++ [m], made ++ [e], rest, by rw [List.append_assoc]; rfl, hrest, ?_, ?_,
          List.rel_append hmade (.cons ⟨hactor, hat⟩ .nil), fun k hk hkm hk' hnot => ?_⟩
        · rw [List.sortedLT_iff_pairwise] at hsorted ⊢
          exact List.pairwise_append.2 ⟨hsorted, List.pairwise_singleton _ _,
            fun k hk k' hk' => List.mem_singleton.1 hk' ▸ hlt k hk⟩
        · intro k hk
          rcases List.mem_append.1 hk with hk | hk
          · exact hlt' k hk
          · exact List.mem_singleton.1 hk ▸ Nat.lt_succ_self m
        · rw [List.mem_append, not_or, List.mem_singleton] at hnot
          exact hkeeps k hk (lt_of_le_of_ne (Nat.le_of_lt_succ hkm) hnot.2) hk' hnot.1
    · have hcode : (r.state (m + 1)).code t = (r.state m).code t := by
        cases hnone : r.actor m with
        | none => rw [r.idle hnone]
        | some u => exact (r.step hnone).code_of_ne fun htu => hactor (htu ▸ hnone)
      refine ⟨steps, made, rest, rfl, hcode ▸ hrest, hsorted, hlt', hmade,
        fun k hk hkm hk' hnot => hkeeps k hk ?_ hk' hnot⟩
      exact lt_of_le_of_ne (Nat.le_of_lt_succ hkm) fun hkm => hactor (hkm ▸ hk')

/-- A task that has finished makes no further step. -/
theorem done_of_le (hdone : (r.state n).code t = .done) (hle : n ≤ m) :
    (r.state m).code t = .done ∧ r.actor m ≠ some t := by
  have hno : ∀ {m}, (r.state m).code t = .done → r.actor m ≠ some t := fun hm hactor => by
    have hdoes := (r.step hactor).does
    rw [hm] at hdoes
    exact hdoes
  induction m, hle using Nat.le_induction with
  | base => exact ⟨hdone, hno hdone⟩
  | succ m hle ih =>
    have hm : (r.state (m + 1)).code t = .done := by
      cases hactor : r.actor m with
      | none => rw [r.idle hactor, ih.1]
      | some u =>
        have hne : t ≠ u := fun htu => ih.2 (htu ▸ hactor)
        rw [(r.step hactor).code_of_ne hne, ih.1]
    exact ⟨hm, hno hm⟩

/-- A task that comes to finish makes the accesses, each at a step of its own, in their order;
    at every other step it keeps `f` of the state. -/
theorem makes_of_done (hmakes : ((r.state n).code t).Makes f At es) (hle : n ≤ m)
    (hdone : (r.state m).code t = .done) :
    ∃ steps : List ℕ, steps.SortedLT ∧ List.Forall₂ (r.MakesAt t At) steps es ∧
      ∀ k, n ≤ k → r.actor k = some t → k ∉ steps →
        f (r.state (k + 1)).state = f (r.state k).state := by
  obtain ⟨steps, made, rest, rfl, hrest, hsorted, _, hmade, hkeeps⟩ := makes hmakes hle
  rw [hdone] at hrest
  obtain rfl : rest = [] := hrest
  refine ⟨steps, hsorted, (List.append_nil made).symm ▸ hmade, fun k hk hactor hnot => ?_⟩
  exact hkeeps k hk (lt_of_not_ge fun hmk => (done_of_le hdone hmk).2 hactor) hactor hnot

end Run

end FifoLock
