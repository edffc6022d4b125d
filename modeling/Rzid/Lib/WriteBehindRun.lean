import Mathlib.Order.Monotone.Basic
import Mathlib.Order.WithBot
import Rzid.Lib.WriteBehind

/-!
# Runs of the write-behind protocol

Runs are sequences of states (`IsRun`), in which anything can happen at any
moment, kills included. Along a run the file holds copies of the memory at single
instants, and these never go back (`IsRun.exists_instants`). A persist that fails
leaves the file, the memory and the flag as they were (`IsRun.persist_failed`);
one that renames leaves in the file a copy made since it took the dirty lock
(`IsRun.persist_renamed`), and until one has, the flag stays set after a failure
(`IsRun.failed_saved`).

For a lifetime of the process, the trace of what the steps did tells whether the
file is up to date (`unsaved`): the file is behind the memory if and only if a
change was reported after the copy that was last renamed (`Trace.ages`).
-/

/-- A sequence of values with a property, each related to the next. -/
theorem exists_seq {α : Type} {P : ℕ → α → Prop} {R : α → α → Prop} {a : α} (h₀ : P 0 a)
    (hnext : ∀ n a, P n a → ∃ b, P (n + 1) b ∧ R a b) :
    ∃ f : ℕ → α, ∀ n, P n (f n) ∧ R (f n) (f (n + 1)) := by
  choose g hg using fun n (a : {a // P n a}) => hnext n a.1 a.2
  let f : (n : ℕ) → {a // P n a} := fun n =>
    Nat.rec ⟨a, h₀⟩ (fun n a => ⟨g n a, (hg n a).1⟩) n
  exact ⟨fun n => (f n).1, fun n => ⟨(f n).2, (hg n (f n)).2⟩⟩

namespace WriteBehind

variable {T M S F V : Type} [Preorder V] [DecidableEq T] (w : WriteBehind M S F V)

/-- A run: at every instant, something happens, or nothing. -/
structure IsRun (ρ : ℕ → Config T M S F) : Prop where
  init : w.Init (ρ 0)
  next (n : ℕ) : ρ (n + 1) = ρ n ∨ w.Next (ρ n) (ρ (n + 1))

variable {w} {ρ : ℕ → Config T M S F}

theorem IsRun.inv (h : w.IsRun ρ) (n : ℕ) : w.Inv (ρ n) := by
  induction n with
  | zero => exact h.init.inv
  | succ n ih =>
    rcases h.next n with hsame | ⟨t, e, hstep⟩ | ⟨hinit, _⟩
    · exact hsame ▸ ih
    · exact ih.step hstep
    · exact hinit.inv

/-- A run can go on from an instant with what can be reached from there. -/
theorem IsRun.exists_extend (h : w.IsRun ρ) {R : Config T M S F → Config T M S F → Prop}
    (hR : ∀ c c', R c c' → w.Next c c') {n : ℕ} {c' : Config T M S F}
    (hc : Relation.ReflTransGen R (ρ n) c') :
    ∃ (ρ' : ℕ → Config T M S F) (n' : ℕ), w.IsRun ρ' ∧ n ≤ n' ∧ (∀ i ≤ n, ρ' i = ρ i) ∧
      ρ' n' = c' ∧ ∀ i, n ≤ i → i < n' → R (ρ' i) (ρ' (i + 1)) := by
  induction hc with
  | refl => exact ⟨ρ, n, h, le_rfl, fun _ _ => rfl, rfl, fun i hni hin => absurd hni hin.not_ge⟩
  | @tail d d' _ hnext ih =>
    obtain ⟨ρ', n', hρ', hle, hsame, rfl, hsteps⟩ := ih
    -- The run up to the instant `n'`, and then the last step.
    refine ⟨fun i => if i ≤ n' then ρ' i else d', n' + 1, ⟨?_, fun i => ?_⟩, hle.trans n'.le_succ,
      fun i hi => ?_, ?_, fun i hni hi => ?_⟩
    · simpa using hρ'.init
    · rcases lt_trichotomy i n' with hi | rfl | hi
      · simpa only [hi.le, Nat.succ_le_of_lt hi, if_true] using hρ'.next i
      · simpa only [le_refl, Nat.not_succ_le_self, if_true, if_false] using .inr (hR _ _ hnext)
      · simp [hi.not_ge, (hi.trans i.lt_succ_self).not_ge]
    · simpa only [hi.trans hle, if_true] using hsame i hi
    · simp
    · rcases (Nat.le_of_lt_succ hi).lt_or_eq with hi | rfl
      · simpa only [hi.le, Nat.succ_le_of_lt hi, if_true] using hsteps i hni hi
      · simpa only [le_refl, Nat.not_succ_le_self, if_true, if_false] using hnext

/-- What can be reached from a start is reached along a run. -/
theorem exists_isRun {c c' : Config T M S F} (hinit : w.Init c)
    (h : Relation.ReflTransGen w.Next c c') :
    ∃ (ρ : ℕ → Config T M S F) (n : ℕ), w.IsRun ρ ∧ ρ 0 = c ∧ ρ n = c' := by
  have hstays : w.IsRun fun _ => c := ⟨hinit, fun _ => .inl rfl⟩
  obtain ⟨ρ, n, hρ, _, hsame, hn, _⟩ := hstays.exists_extend (n := 0) (fun _ _ => id) h
  exact ⟨ρ, n, hρ, hsame 0 le_rfl, hn⟩

/-! ## The instants of the file -/

variable (w ρ) in
/-- At the instant `n`, the file is a copy of the memory at the instant `k` (the
    initial file, if `k` is `⊥`), and a persist under way has its copy, if any, from
    the later instant `j`. -/
structure Instants (n : ℕ) (k : WithBot ℕ) (j : ℕ) : Prop where
  le : k ≤ WithBot.some j
  le_now : j ≤ n
  initial (h : k = ⊥) : (ρ n).file = (ρ 0).file
  file {i : ℕ} (h : k = WithBot.some i) : (ρ n).file = some (w.encode (w.snapshot (ρ i).mem))
  target {t : T} {f : Option F} : ((ρ n).pc t).target w.encode (ρ n).file = some f →
    f = some (w.encode (w.snapshot (ρ j).mem))

theorem Instants.step {n : ℕ} {k : WithBot ℕ} {j : ℕ} (h : Instants w ρ n k j)
    (hinv : w.Inv (ρ n)) {t : T} {e : Event} (hstep : w.Step (ρ n) t e (ρ (n + 1))) :
    ∃ k' j', Instants w ρ (n + 1) k' j' ∧ k ≤ k' := by
  generalize hρ : ρ (n + 1) = c' at hstep
  obtain ⟨rfl, hlocal, hfree⟩ := hstep
  rename_i p' s'
  have hpc : ∀ {u f}, ((ρ (n + 1)).pc u).target w.encode (ρ (n + 1)).file = some f →
      (((ρ n).pc u).target w.encode (ρ n).file = some f ∧ e ≠ .copy) ∨
        (e = .copy ∧ f = some (w.encode (w.snapshot (ρ n).mem))) := by
    intro u f hf
    rw [hρ] at hf
    exact (hinv.locked.target_move hlocal hf).imp id fun ⟨he, _, hf⟩ => ⟨he, hf⟩
  have hfile : (ρ (n + 1)).file = s'.file := by rw [hρ]; rfl
  rcases hinv.locked.file_or_target hlocal with ⟨hsame, _⟩ | ⟨hf, he⟩
  · by_cases he : e = .copy
    · -- A copy: a persist under way now has the memory of this instant.
      refine ⟨k, n, ⟨h.le.trans (WithBot.coe_le_coe.2 h.le_now), n.le_succ, fun hk => ?_,
        fun hk => ?_, fun hf => ?_⟩, le_rfl⟩
      · rw [hfile, hsame, h.initial hk]
      · rw [hfile, hsame, h.file hk]
      · rcases hpc hf with ⟨_, hne⟩ | ⟨_, hf⟩
        · exact absurd he hne
        · exact hf
    · refine ⟨k, j, ⟨h.le, h.le_now.trans n.le_succ, fun hk => ?_, fun hk => ?_,
        fun hf => ?_⟩, le_rfl⟩
      · rw [hfile, hsame, h.initial hk]
      · rw [hfile, hsame, h.file hk]
      · rcases hpc hf with ⟨hf, _⟩ | ⟨he', _⟩
        · exact h.target hf
        · exact absurd he' he
  · -- A rename: the file becomes the copy of the persist under way.
    refine ⟨WithBot.some j, j, ⟨le_rfl, h.le_now.trans n.le_succ, nofun, fun hk => ?_,
      fun hf' => ?_⟩, h.le⟩
    · rw [hfile, h.target hf, WithBot.coe_inj.1 hk]
    · rcases hpc hf' with ⟨hf', _⟩ | ⟨he', _⟩
      · exact h.target hf'
      · rw [he] at he'
        cases he'

/-- Along a run, the file is the initial file, and then a copy of the memory at one
    instant after the other, never going back. -/
theorem IsRun.exists_instants (h : w.IsRun ρ) :
    ∃ k : ℕ → WithBot ℕ, Monotone k ∧ ∀ n, k n ≤ WithBot.some n ∧
      (k n = ⊥ → (ρ n).file = (ρ 0).file) ∧
      ∀ i, k n = WithBot.some i → (ρ n).file = some (w.encode (w.snapshot (ρ i).mem)) := by
  have hstart : Instants w ρ 0 ⊥ 0 :=
    ⟨bot_le, le_rfl, fun _ => rfl, nofun, fun hf => by rw [h.init.idle] at hf; cases hf⟩
  obtain ⟨f, hf⟩ := exists_seq (P := fun n a => Instants w ρ n a.1 a.2)
    (R := fun a b : WithBot ℕ × ℕ => a.1 ≤ b.1) (a := (⊥, 0)) hstart fun n a ha => by
      rcases h.next n with hsame | ⟨t, e, hstep⟩ | ⟨hinit, hfile⟩
      · exact ⟨a, ⟨ha.le, ha.le_now.trans n.le_succ, hsame ▸ ha.initial, hsame ▸ ha.file,
          hsame ▸ ha.target⟩, le_rfl⟩
      · obtain ⟨k', j', hstep, hle⟩ := ha.step (h.inv n) hstep
        exact ⟨(k', j'), hstep, hle⟩
      · exact ⟨a, ⟨ha.le, ha.le_now.trans n.le_succ, hfile ▸ ha.initial, hfile ▸ ha.file,
          fun hf => by rw [hinit.idle] at hf; cases hf⟩, le_rfl⟩
  refine ⟨fun n => (f n).1, monotone_nat_of_le_succ fun n => (hf n).2, fun n => ?_⟩
  have hn := (hf n).1
  exact ⟨hn.le.trans (WithBot.coe_le_coe.2 hn.le_now), hn.initial, fun i hi => hn.file hi⟩

/-! ## Single persists -/

/-- The persist has not renamed, and may have failed. -/
def Pc.Unrenamed : Pc S → Prop
  | persisting | snapshotting | copying | copied _ | snapshotted _ | writing _ | written _
  | failed => True
  | _ => False

theorem Pc.Unrenamed.holdsDirty {p : Pc S} (h : p.Unrenamed) : p.HoldsDirty := by
  cases p <;> first | exact trivial | exact h.elim

/-- A step of a persist changes no memory, and keeps the file and the flag unless it
    renames or ends. -/
theorem Local.unrenamed {s s' : Shared M F} {p p' : Pc S} {e : Event}
    (h : w.Local s p e s' p') (hp : p.Unrenamed) :
    s'.mem = s.mem ∧ ((p'.Unrenamed ∧ s'.file = s.file) ∨ p' = .renamed ∨ p' = .idle) := by
  cases h <;> first | exact hp.elim | exact ⟨rfl, .inl ⟨trivial, rfl⟩⟩ |
    exact ⟨rfl, .inr (.inl rfl)⟩ | exact ⟨rfl, .inr (.inr rfl)⟩

theorem Local.renamed {s s' : Shared M F} {p p' : Pc S} {e : Event}
    (h : w.Local s p e s' p') (hp : p = .renamed ∨ p = .cleared) :
    s'.mem = s.mem ∧ (p' = .cleared ∨ p' = .idle) := by
  rcases hp with rfl | rfl
  · cases h with
    | clear => exact ⟨rfl, .inl rfl⟩
  · cases h with
    | unlockPersist => exact ⟨rfl, .inr rfl⟩

/-- At every instant of a run, a task makes a step, is idle after a start, or stays where
    it is; and the others do not rename while it holds the dirty lock. -/
theorem IsRun.next_cases (h : w.IsRun ρ) (t : T) (n : ℕ) :
    (∃ e, w.Local (ρ n).toShared ((ρ n).pc t) e (ρ (n + 1)).toShared ((ρ (n + 1)).pc t)) ∨
      (ρ (n + 1)).pc t = .idle ∨
        ((ρ (n + 1)).pc t = (ρ n).pc t ∧
          (((ρ n).pc t).HoldsDirty → (ρ (n + 1)).file = (ρ n).file)) := by
  rcases h.next n with hsame | ⟨u, e, hstep⟩ | ⟨hinit, _⟩
  · exact .inr (.inr ⟨by rw [hsame], fun _ => by rw [hsame]⟩)
  · generalize ρ (n + 1) = c' at hstep
    obtain ⟨rfl, hlocal, hfree⟩ := hstep
    rename_i p' s'
    by_cases htu : t = u
    · subst htu
      rw [Config.move_pc_self]
      exact .inl ⟨e, hlocal⟩
    · refine .inr (.inr ⟨Config.move_pc_of_ne _ _ _ _ htu, fun hdirty => ?_⟩)
      rcases (h.inv n).locked.file_or_target hlocal with ⟨hsame, _⟩ | ⟨hf, _⟩
      · exact hsame
      · exact absurd ((h.inv n).locked.eq_of_holdsDirty hdirty (Pc.holdsDirty_of_target hf)) htu
  · exact .inr (.inl (hinit.idle t))

/-- A persist that returns an error leaves the file as it was and the flag set, and
    has not changed the memory in any of its steps. -/
theorem IsRun.persist_failed (h : w.IsRun ρ) {t : T} {m n : ℕ} (hmn : m ≤ n)
    (hlock : (ρ m).pc t = .persisting) (hcall : ∀ i, m ≤ i → i ≤ n → (ρ i).pc t ≠ .idle)
    (hfail : (ρ n).pc t = .failed) :
    (ρ n).file = (ρ m).file ∧ (ρ n).dirty = true ∧
      ∀ i, m ≤ i → i < n → (ρ (i + 1)).pc t ≠ (ρ i).pc t → (ρ (i + 1)).mem = (ρ i).mem := by
  -- Until it renames, the file is the one found with the dirty lock.
  have hphase : ∀ i, m ≤ i → i ≤ n → (((ρ i).pc t).Unrenamed ∧ (ρ i).file = (ρ m).file) ∨
      (ρ i).pc t = .renamed ∨ (ρ i).pc t = .cleared := by
    intro i hmi
    induction i, hmi using Nat.le_induction with
    | base => exact fun _ => .inl ⟨by rw [hlock]; trivial, rfl⟩
    | succ i hmi ih =>
      intro hin
      have ih := ih (i.le_succ.trans hin)
      have hcall := hcall (i + 1) (hmi.trans i.le_succ) hin
      rcases h.next_cases t i with ⟨e, hlocal⟩ | hidle | ⟨hsame, hkeep⟩
      · rcases ih with ⟨hp, hfile⟩ | hp
        · rcases (hlocal.unrenamed hp).2 with ⟨hp', hfile'⟩ | hp' | hp'
          · exact .inl ⟨hp', hfile'.trans hfile⟩
          · exact .inr (.inl hp')
          · exact absurd hp' hcall
        · rcases (hlocal.renamed hp).2 with hp' | hp'
          · exact .inr (.inr hp')
          · exact absurd hp' hcall
      · exact absurd hidle hcall
      · rw [hsame]
        exact ih.imp (fun ⟨hp, hfile⟩ => ⟨hp, (hkeep hp.holdsDirty).trans hfile⟩) id
  refine ⟨?_, (h.inv n).flagged (t := t) (by rw [hfail]; trivial), fun i hmi hin hmove => ?_⟩
  · rcases hphase n hmn le_rfl with ⟨_, hfile⟩ | hp | hp
    · exact hfile
    · rw [hfail] at hp
      cases hp
    · rw [hfail] at hp
      cases hp
  · rcases h.next_cases t i with ⟨e, hlocal⟩ | hidle | ⟨hsame, _⟩
    · rcases hphase i hmi hin.le with ⟨hp, _⟩ | hp
      · exact (hlocal.unrenamed hp).1
      · exact (hlocal.renamed hp).1
    · exact absurd hidle (hcall (i + 1) (hmi.trans i.le_succ) hin)
    · exact absurd hsame hmove

/-- A persist that has renamed leaves in the file a copy of the memory at an instant
    since it took the dirty lock. -/
theorem IsRun.persist_renamed (h : w.IsRun ρ) {t : T} {m n : ℕ} (hmn : m ≤ n)
    (hlock : (ρ m).pc t = .persisting) (hrenamed : (ρ n).pc t = .renamed) :
    ∃ i, m ≤ i ∧ i ≤ n ∧ (ρ n).file = some (w.encode (w.snapshot (ρ i).mem)) := by
  have hcopy : ∀ n, m ≤ n → ∀ f, ((ρ n).pc t).target w.encode (ρ n).file = some f →
      ∃ i, m ≤ i ∧ i ≤ n ∧ f = some (w.encode (w.snapshot (ρ i).mem)) := by
    intro n hmn
    induction n, hmn using Nat.le_induction with
    | base => exact fun f hf => by rw [hlock] at hf; cases hf
    | succ n hmn ih =>
      intro f hf
      have hearlier : ((ρ n).pc t).target w.encode (ρ n).file = some f →
          ∃ i, m ≤ i ∧ i ≤ n + 1 ∧ f = some (w.encode (w.snapshot (ρ i).mem)) := fun hf =>
        let ⟨i, hmi, hin, hf⟩ := ih f hf
        ⟨i, hmi, hin.trans n.le_succ, hf⟩
      rcases h.next_cases t n with ⟨e, hlocal⟩ | hidle | ⟨hsame, hkeep⟩
      · rcases hlocal.target (fun _ => (h.inv n).tmp) hf with ⟨hf, _⟩ | ⟨_, _, _, hf⟩
        · exact hearlier hf
        · exact ⟨n, hmn, n.le_succ, hf⟩
      · rw [hidle] at hf
        cases hf
      · rw [hsame] at hf
        exact hearlier (hkeep (Pc.holdsDirty_of_target hf) ▸ hf)
  exact hcopy n hmn _ (by rw [hrenamed]; rfl)

/-- After a failed persist, within the lifetime of the process, the flag is not cleared
    before the file holds a copy of the memory made since. -/
theorem IsRun.failed_saved (h : w.IsRun ρ) {t : T} {m n : ℕ} (hmn : m ≤ n)
    (hfail : (ρ m).pc t = .failed)
    (halive : ∀ i, m ≤ i → i < n → ρ (i + 1) = ρ i ∨ ∃ u e, w.Step (ρ i) u e (ρ (i + 1)))
    (hclear : (ρ n).dirty = false) :
    ∃ i, m ≤ i ∧ i ≤ n ∧ (ρ n).file = some (w.encode (w.snapshot (ρ i).mem)) := by
  let Since (n : ℕ) (f : Option F) : Prop :=
    ∃ i, m ≤ i ∧ i ≤ n ∧ f = some (w.encode (w.snapshot (ρ i).mem))
  have hlater : ∀ {n f}, Since n f → Since (n + 1) f := fun ⟨i, hmi, hin, hf⟩ =>
    ⟨i, hmi, hin.trans (Nat.le_succ _), hf⟩
  -- Every copy under way has been made since, and the file too unless the flag is set.
  have hsince : ∀ i, m ≤ i → i ≤ n →
      (∀ u f, ((ρ i).pc u).target w.encode (ρ i).file = some f → Since i f) ∧
        ((ρ i).dirty = true ∨ Since i (ρ i).file) := by
    intro i hmi
    induction i, hmi using Nat.le_induction with
    | base =>
      refine fun _ => ⟨fun u f hf => ?_, .inl ((h.inv m).flagged (t := t) (by rw [hfail]; trivial))⟩
      have hut : u = t := (h.inv m).locked.eq_of_holdsDirty (Pc.holdsDirty_of_target hf)
        (by rw [hfail]; trivial)
      rw [hut, hfail] at hf
      cases hf
    | succ i hmi ih =>
      intro hin
      obtain ⟨htarget, hfile⟩ := ih (i.le_succ.trans hin)
      rcases halive i hmi hin with hsame | ⟨u, e, hstep⟩
      · rw [hsame]
        exact ⟨fun u f hf => hlater (htarget u f hf), hfile.imp id hlater⟩
      · generalize ρ (i + 1) = c' at hstep ⊢
        obtain ⟨rfl, hlocal, hfree⟩ := hstep
        refine ⟨fun v f hf => ?_, ?_⟩
        · rcases (h.inv i).locked.target_move hlocal hf with ⟨hf, _⟩ | ⟨_, _, hf⟩
          · exact hlater (htarget v f hf)
          · exact ⟨i, hmi, i.le_succ, hf⟩
        · rw [Config.move_toShared]
          rcases (h.inv i).locked.file_or_target hlocal with ⟨hsame, _⟩ | ⟨hf, _⟩
          · rw [hsame]
            rcases hlocal.dirty with hdirty | ⟨_, _, htrue⟩ | ⟨hp, _⟩
            · exact (hdirty ▸ hfile).imp id hlater
            · exact .inl htrue
            · exact .inr (hlater (htarget u _ (by rw [hp]; rfl)))
          · exact .inr (hlater (htarget u _ hf))
  rcases (hsince n hmn le_rfl).2 with hdirty | hfile
  · exact absurd (hclear.symm.trans hdirty) Bool.false_ne_true
  · exact hfile

/-! ## Traces -/

/-- Whether a change was reported after the last copy (or the start), in a trace
    with the latest event first. -/
def changedSinceCopy : List Event → Bool
  | [] => false
  | .copy :: _ => false
  | .change true :: _ => true
  | _ :: events => changedSinceCopy events

/-- Whether a change was reported after the copy that was last renamed (or the
    start). -/
def unsaved : List Event → Bool
  | [] => false
  | .rename :: events => changedSinceCopy events
  | .change true :: _ => true
  | _ :: events => unsaved events

variable (w) in
/-- The traces of a lifetime, with the states they lead to. -/
inductive Trace : List Event → Config T M S F → Prop
  | init {c} (h : w.Init c) : Trace [] c
  | step {events c t e c'} (h : Trace events c) (hstep : w.Step c t e c') :
    Trace (e :: events) c'

/-- The view `a` is behind `b` if there was a change, and the same otherwise. -/
def Ages (changed : Bool) (a b : V) : Prop := if changed then a < b else a = b

theorem Ages.change {changed : Bool} {a b b' : V} (h : Ages changed a b) (hlt : b < b') :
    Ages true a b' := by
  cases changed with
  | false => exact (show a = b from h).trans_lt hlt
  | true => exact (show a < b from h).trans hlt

/-- A step that reports a change lets the view of the memory grow; any other keeps it. -/
theorem Local.view_cases {s s' : Shared M F} {p p' : Pc S} {e : Event}
    (h : w.Local s p e s' p') :
    (e = .change true ∧ w.view s.mem < w.view s'.mem) ∨
      (e ≠ .change true ∧ w.view s'.mem = w.view s.mem) := by
  cases h with
  | @change _ reported hm =>
    cases reported
    · exact .inr ⟨nofun, w.view_unreported hm⟩
    · exact .inl ⟨rfl, w.view_reported hm⟩
  | _ => exact .inr ⟨nofun, rfl⟩

theorem changedSinceCopy_cons {e : Event} {events : List Event} (he : e ≠ .copy)
    (he' : e ≠ .change true) : changedSinceCopy (e :: events) = changedSinceCopy events := by
  match e with
  | .silent | .change false | .rename | .fail => rfl
  | .change true => exact absurd rfl he'
  | .copy => exact absurd rfl he

theorem unsaved_cons {e : Event} {events : List Event} (he : e ≠ .rename)
    (he' : e ≠ .change true) : unsaved (e :: events) = unsaved events := by
  match e with
  | .silent | .change false | .copy | .fail => rfl
  | .change true => exact absurd rfl he'
  | .rename => exact absurd rfl he

/-- The file is behind the memory if and only if a change was reported after the
    copy that was last renamed; and likewise the copy of a persist under way. -/
theorem Trace.ages {events : List Event} {c : Config T M S F} (h : w.Trace events c) :
    w.Inv c ∧ Ages (unsaved events) (w.viewFile c.file) (w.view c.mem) ∧
      ∀ {t f}, (c.pc t).target w.encode c.file = some f →
        Ages (changedSinceCopy events) (w.viewFile f) (w.view c.mem) := by
  induction h with
  | init h =>
    exact ⟨h.inv, (w.view_start h.starts).symm, fun hf => by rw [h.idle] at hf; cases hf⟩
  | @step events c t e c' _ hstep ih =>
    obtain ⟨hinv, hfile, htarget⟩ := ih
    refine ⟨hinv.step hstep, ?_⟩
    obtain ⟨rfl, hlocal, hfree⟩ := hstep
    rename_i p' s'
    rcases hlocal.view_cases with ⟨rfl, hlt⟩ | ⟨he, hview⟩
    · -- A reported change leaves the file and every copy behind.
      have hsame : s'.file = c.file := by
        rcases hinv.locked.file_or_target hlocal with ⟨hsame, _⟩ | ⟨_, he⟩
        · exact hsame
        · cases he
      refine ⟨hsame ▸ hfile.change hlt, fun {u f} hf => ?_⟩
      rcases hinv.locked.target_move hlocal hf with ⟨hf, _⟩ | ⟨he, _⟩
      · exact (htarget hf).change hlt
      · cases he
    · refine ⟨?_, fun {u f} hf => ?_⟩
      · rw [Config.move_toShared, hview]
        rcases hinv.locked.file_or_target hlocal with ⟨hsame, hrename⟩ | ⟨hf, rfl⟩
        · rw [unsaved_cons hrename he, hsame]
          exact hfile
        · exact htarget hf
      · rw [Config.move_toShared, hview]
        rcases hinv.locked.target_move hlocal hf with ⟨hf, hcopy⟩ | ⟨rfl, _, rfl⟩
        · rw [changedSinceCopy_cons hcopy he]
          exact htarget hf
        · exact w.viewFile_encode c.mem

end WriteBehind
