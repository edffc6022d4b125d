import Mathlib.Data.List.Nodup
import Mathlib.Logic.Function.Basic

/-!
# Sections under a read-write lock

Any number of calls on a shared state, each with one section under a read-write lock: it
takes the lock, accesses the state any number of times, releases the lock, and answers
later (`Step`). The accesses of different calls interleave; the lock keeps a section
that changes the state apart from all others. A call may be dropped while it waits for the
lock, and after it has released it.

The clients see the history of the calls and answers. It is linearizable
(`Reachable.linearization`): the calls that have entered their sections, made one after the
other in some order, answer what the clients have been answered; and a call that was
answered before another one was made comes first in this order (`Linearization`).
-/

namespace Sections

/-! ## Sections -/

/-- A section on a state `σ`: its accesses, and in the end its answer. -/
inductive Code (σ A : Type*)
  | answer (a : A)
  /-- Change the state, and go on by what it was. -/
  | access (change : σ → σ) (next : σ → Code σ A)

namespace Code

variable {σ A : Type*}

/-- What a section makes of the state if nothing interferes, and its answer. -/
def eval : Code σ A → σ → σ × A
  | answer a, s => (s, a)
  | access change next, s => (next s).eval (change s)

/-- The section changes nothing. -/
def Reads : Code σ A → Prop
  | answer _ => True
  | access change next => (∀ s, change s = s) ∧ ∀ s, (next s).Reads

theorem Reads.eval_fst {code : Code σ A} (h : code.Reads) (s : σ) : (code.eval s).1 = s := by
  induction code generalizing s with
  | answer a => rfl
  | access change next ih =>
    rw [eval, h.1 s]
    exact ih s (h.2 s) s

/-- The section with its answer changed. -/
def map {B : Type*} (f : A → B) : Code σ A → Code σ B
  | answer a => answer (f a)
  | access change next => access change fun s => (next s).map f

theorem eval_map {B : Type*} (f : A → B) (code : Code σ A) (s : σ) :
    (code.map f).eval s = ((code.eval s).1, f (code.eval s).2) := by
  induction code generalizing s with
  | answer a => rfl
  | access change next ih => exact ih s (change s)

theorem Reads.map {B : Type*} {code : Code σ A} (h : code.Reads) (f : A → B) :
    (code.map f).Reads := by
  induction code with
  | answer a => trivial
  | access change next ih => exact ⟨h.1, fun s => ih s (h.2 s)⟩

end Code

/-- The calls that can be made, with their sections. -/
structure Object (σ O A : Type*) where
  code : O → Code σ A
  /-- The call takes the lock for reading. -/
  reads : O → Bool
  reads_code (o : O) : reads o = true → (code o).Reads

variable {σ O A : Type*}

/-- A call made on its own: the state after it, and its answer. -/
def Object.apply (obj : Object σ O A) (o : O) (s : σ) : σ × A := (obj.code o).eval s

theorem Object.apply_fst_of_reads (obj : Object σ O A) {o : O} (h : obj.reads o = true) (s : σ) :
    (obj.apply o s).1 = s := (obj.reads_code o h).eval_fst s

/-! ## Histories -/

/-- What the clients see. The calls are numbered. -/
inductive Event (O A : Type*)
  | call (id : ℕ) (o : O)
  | answer (id : ℕ) (a : A)

/-- In a history with the latest event first, the call `id` was answered before the call
    `id'` was made. -/
def Before (history : List (Event O A)) (id id' : ℕ) : Prop :=
  ∃ later o earlier a, history = later ++ .call id' o :: earlier ∧ .answer id a ∈ earlier

/-- A call with its answer. -/
structure Entry (O A : Type*) where
  id : ℕ
  op : O
  answer : A

/-- The calls `order`, the latest first, made one after the other from `s`, have these
    answers and leave `s'`. -/
inductive Legal (obj : Object σ O A) (s : σ) : List (Entry O A) → σ → Prop
  | nil : Legal obj s [] s
  | cons {order s'} (id : ℕ) (o : O) (h : Legal obj s order s') :
    Legal obj s (⟨id, o, (obj.apply o s').2⟩ :: order) (obj.apply o s').1

/-- A sequential order of calls that accounts for a history. -/
structure Linearization (obj : Object σ O A) (s : σ) (history : List (Event O A))
    (order : List (Entry O A)) : Prop where
  legal : ∃ s', Legal obj s order s'
  /-- No call is made twice. -/
  nodup : (order.map Entry.id).Nodup
  called {e : Entry O A} : e ∈ order → .call e.id e.op ∈ history
  answered {id : ℕ} {a : A} : .answer id a ∈ history → ∃ o, ⟨id, o, a⟩ ∈ order
  /-- The order respects real time. -/
  realTime : order.Pairwise fun later earlier => ¬Before history later.id earlier.id

/-! ## Steps -/

/-- Where a call is. -/
inductive Phase (σ O A : Type*)
  | new
  /-- The call waits for the lock. -/
  | waiting (o : O)
  /-- The call holds the lock, and has still to do `code`. -/
  | holding (o : O) (code : Code σ A)
  /-- The call has released the lock, and has not answered. -/
  | released (a : A)
  /-- The call has answered, or was dropped. -/
  | ended

/-- A state: what the calls share, where they are, and what the clients have seen. -/
structure Config (σ O A : Type*) where
  state : σ
  phase : ℕ → Phase σ O A
  history : List (Event O A)

/-- The state in which the call `id` has moved. -/
def Config.move (c : Config σ O A) (id : ℕ) (s : σ) (phase : Phase σ O A) : Config σ O A :=
  { c with state := s, phase := Function.update c.phase id phase }

@[simp] theorem Config.move_phase_self (c : Config σ O A) (id : ℕ) (s : σ)
    (phase : Phase σ O A) : (c.move id s phase).phase id = phase := Function.update_self ..

theorem Config.move_phase_of_ne (c : Config σ O A) {id id' : ℕ} (s : σ) (phase : Phase σ O A)
    (h : id' ≠ id) : (c.move id s phase).phase id' = c.phase id' := Function.update_of_ne h ..

@[simp] theorem Config.move_move (c : Config σ O A) (id : ℕ) (s s' : σ)
    (phase phase' : Phase σ O A) : (c.move id s phase).move id s' phase' = c.move id s' phase' := by
  rw [move, move, move, Function.update_idem]

/-- The state in which the clients have seen a further event. -/
def Config.see (c : Config σ O A) (event : Event O A) : Config σ O A :=
  { c with history := event :: c.history }

/-- The lock is free for a call: who holds it reads, and so does the call. -/
def Config.Free (obj : Object σ O A) (c : Config σ O A) (o : O) : Prop :=
  ∀ id o' code, c.phase id = .holding o' code → obj.reads o = true ∧ obj.reads o' = true

/-- A step of the call `id`. -/
inductive Step (obj : Object σ O A) (c : Config σ O A) (id : ℕ) : Config σ O A → Prop
  | call (o : O) (hphase : c.phase id = .new) :
    Step obj c id ((c.move id c.state (.waiting o)).see (.call id o))
  | enter {o} (hphase : c.phase id = .waiting o) (hfree : c.Free obj o) :
    Step obj c id (c.move id c.state (.holding o (obj.code o)))
  | access {o change next} (hphase : c.phase id = .holding o (.access change next)) :
    Step obj c id (c.move id (change c.state) (.holding o (next c.state)))
  | release {o a} (hphase : c.phase id = .holding o (.answer a)) :
    Step obj c id (c.move id c.state (.released a))
  | answer {a} (hphase : c.phase id = .released a) :
    Step obj c id ((c.move id c.state .ended).see (.answer id a))
  | dropWaiting {o} (hphase : c.phase id = .waiting o) :
    Step obj c id (c.move id c.state .ended)
  | dropReleased {a} (hphase : c.phase id = .released a) :
    Step obj c id (c.move id c.state .ended)

/-- The state in which no call has been made. -/
def start (s : σ) : Config σ O A := ⟨s, fun _ => .new, []⟩

/-- The states that can be reached from the shared state `s`. -/
inductive Reachable (obj : Object σ O A) (s : σ) : Config σ O A → Prop
  | start : Reachable obj s (start s)
  | step {c c' id} (h : Reachable obj s c) (hstep : Step obj c id c') : Reachable obj s c'

/-! ## The order of the calls -/

section Order

variable {obj : Object σ O A} {s₀ s s' : σ} {history : List (Event O A)} {c c' : Config σ O A}
  {order : List (Entry O A)} {id : ℕ}

theorem Before.of_call {o : O} {x y : ℕ} (h : Before (.call id o :: history) x y) :
    y = id ∨ Before history x y := by
  obtain ⟨later, o', earlier, a, hhistory, ha⟩ := h
  cases later with
  | nil =>
    rw [List.nil_append, List.cons.injEq, Event.call.injEq] at hhistory
    exact .inl hhistory.1.1.symm
  | cons event later =>
    exact .inr ⟨later, o', earlier, a, (List.cons.inj hhistory).2, ha⟩

theorem Before.of_answer {a : A} {x y : ℕ} (h : Before (.answer id a :: history) x y) :
    Before history x y := by
  obtain ⟨later, o', earlier, a', hhistory, ha⟩ := h
  cases later with
  | nil => cases (List.cons.inj hhistory).1
  | cons event later => exact ⟨later, o', earlier, a', (List.cons.inj hhistory).2, ha⟩

theorem Before.answered {x y : ℕ} (h : Before history x y) : ∃ a, .answer x a ∈ history := by
  obtain ⟨later, o, earlier, a, rfl, ha⟩ := h
  exact ⟨a, List.mem_append_right _ (List.mem_cons_of_mem _ ha)⟩

/-- What holds of the call `id` in its phase: the state is `s`, and `s'` is what the
    calls of `order` leave. A section under way will end in that state, with its answer
    in that order. -/
def Phase.Ok (obj : Object σ O A) (history : List (Event O A)) (order : List (Entry O A))
    (s s' : σ) (id : ℕ) : Phase σ O A → Prop
  | new =>
    (∀ o, .call id o ∉ history) ∧ (∀ a, .answer id a ∉ history) ∧ id ∉ order.map Entry.id
  | waiting o =>
    .call id o ∈ history ∧ (∀ a, .answer id a ∉ history) ∧ id ∉ order.map Entry.id
  | holding o code =>
    (∃ a, ⟨id, o, a⟩ ∈ order ∧ code.eval s = (s', a)) ∧ (obj.reads o = true → code.Reads)
  | released a => ∃ o, ⟨id, o, a⟩ ∈ order
  | ended => True

/-- What holds in every state: `order` accounts for the history, and leaves `s'`. -/
structure Inv (obj : Object σ O A) (s₀ : σ) (c : Config σ O A) (order : List (Entry O A))
    (s' : σ) : Prop where
  legal : Legal obj s₀ order s'
  /-- Calls with different numbers are different calls. -/
  unique {id : ℕ} {o o' : O} : .call id o ∈ c.history → .call id o' ∈ c.history → o = o'
  nodup : (order.map Entry.id).Nodup
  called {e : Entry O A} : e ∈ order → .call e.id e.op ∈ c.history
  answered {id : ℕ} {a : A} : .answer id a ∈ c.history → ∃ o, ⟨id, o, a⟩ ∈ order
  realTime : order.Pairwise fun later earlier => ¬Before c.history later.id earlier.id
  phase (id : ℕ) : (c.phase id).Ok obj c.history order c.state s' id
  exclusive {id id' : ℕ} {o o' : O} {code code' : Code σ A} : id ≠ id' →
    c.phase id = .holding o code → c.phase id' = .holding o' code' →
      obj.reads o = true ∧ obj.reads o' = true
  /-- Unless a section is changing it, the state is that of the order. -/
  state : (∀ id o code, c.phase id = .holding o code → obj.reads o = true) → c.state = s'

theorem Inv.start : Inv obj s (start s) [] s where
  legal := .nil
  unique h := absurd h List.not_mem_nil
  nodup := List.nodup_nil
  called h := absurd h List.not_mem_nil
  answered h := absurd h List.not_mem_nil
  realTime := .nil
  phase _ := ⟨fun _ => List.not_mem_nil, fun _ => List.not_mem_nil, List.not_mem_nil⟩
  exclusive _ h := by cases h
  state _ := rfl

theorem holding_of_move {phase : Phase σ O A} {id' : ℕ} {o : O} {code : Code σ A}
    (h : (c.move id s phase).phase id' = .holding o code) :
    (id' = id ∧ phase = .holding o code) ∨ (id' ≠ id ∧ c.phase id' = .holding o code) := by
  by_cases hid : id' = id
  · subst hid
    exact .inl ⟨rfl, c.move_phase_self id' s phase ▸ h⟩
  · exact .inr ⟨hid, c.move_phase_of_ne s phase hid ▸ h⟩

/-- A call that does not hold the lock after its step leaves the sections of the others as
    they were. -/
theorem Inv.move {phase : Phase σ O A} (h : Inv obj s₀ c order s')
    (hphase : phase.Ok obj c.history order c.state s' id)
    (hholds : ∀ o code, phase ≠ .holding o code)
    (hstate : ∀ o code, c.phase id = .holding o code → c.state = s') :
    Inv obj s₀ (c.move id c.state phase) order s' where
  legal := h.legal
  unique := h.unique
  nodup := h.nodup
  called := h.called
  answered := h.answered
  realTime := h.realTime
  phase id' := by
    by_cases hid : id' = id
    · subst hid
      rw [c.move_phase_self]
      exact hphase
    · rw [c.move_phase_of_ne _ _ hid]
      exact h.phase id'
  exclusive hne hi hi' := by
    rcases holding_of_move hi with ⟨_, hi⟩ | ⟨_, hi⟩
    · exact absurd hi (hholds _ _)
    · rcases holding_of_move hi' with ⟨_, hi'⟩ | ⟨_, hi'⟩
      · exact absurd hi' (hholds _ _)
      · exact h.exclusive hne hi hi'
  state hall := by
    by_cases hid : ∃ o code, c.phase id = .holding o code
    · obtain ⟨o, code, hid⟩ := hid
      exact hstate o code hid
    · refine h.state fun id' o code hid' => hall id' o code ?_
      have hne : id' ≠ id := fun heq => hid ⟨o, code, by rw [← heq, hid']⟩
      rw [c.move_phase_of_ne _ _ hne, hid']

/-- A call that has not been made, and is not in the order, can be made. -/
theorem Inv.see_call (h : Inv obj s₀ c order s') (o : O) (hended : c.phase id = .ended)
    (hcall : ∀ o, .call id o ∉ c.history) (hid : id ∉ order.map Entry.id) :
    Inv obj s₀ (c.see (.call id o)) order s' where
  legal := h.legal
  unique {id' o₁ o₂} h₁ h₂ := by
    rcases List.mem_cons.1 h₁ with h₁ | h₁ <;> rcases List.mem_cons.1 h₂ with h₂ | h₂
    · exact (Event.call.inj h₁).2.trans (Event.call.inj h₂).2.symm
    · exact absurd ((Event.call.inj h₁).1 ▸ h₂) (hcall o₂)
    · exact absurd ((Event.call.inj h₂).1 ▸ h₁) (hcall o₁)
    · exact h.unique h₁ h₂
  nodup := h.nodup
  called he := List.mem_cons_of_mem _ (h.called he)
  answered ha := h.answered ((List.mem_cons.1 ha).resolve_left nofun)
  realTime := by
    refine h.realTime.imp_of_mem fun {later earlier} _ hearlier hlt hbefore => ?_
    rcases hbefore.of_call with heq | hbefore
    · exact hid (heq ▸ List.mem_map_of_mem hearlier)
    · exact hlt hbefore
  phase id' := by
    have hphase := h.phase id'
    have hanswer : ∀ {a}, .answer id' a ∉ c.history →
        .answer id' a ∉ (.call id o :: c.history : List (Event O A)) := fun ha hmem =>
      ha ((List.mem_cons.1 hmem).resolve_left nofun)
    have hne : c.phase id' ≠ .ended → id' ≠ id := fun hp heq => hp (heq ▸ hended)
    change (c.phase id').Ok obj _ order c.state s' id'
    cases hp : c.phase id' with
    | new =>
      rw [hp] at hphase
      refine ⟨fun o' hmem => ?_, fun a => hanswer (hphase.2.1 a), hphase.2.2⟩
      rcases List.mem_cons.1 hmem with heq | hmem
      · exact hne (by simp [hp]) (Event.call.inj heq).1
      · exact hphase.1 o' hmem
    | waiting o' =>
      rw [hp] at hphase
      exact ⟨List.mem_cons_of_mem _ hphase.1, fun a => hanswer (hphase.2.1 a), hphase.2.2⟩
    | _ =>
      rw [hp] at hphase
      exact hphase
  exclusive := h.exclusive
  state := h.state

/-- A call that is over can have answered as in the order. -/
theorem Inv.see_answer (h : Inv obj s₀ c order s') {o : O} {a : A}
    (hended : c.phase id = .ended) (hmem : ⟨id, o, a⟩ ∈ order) :
    Inv obj s₀ (c.see (.answer id a)) order s' where
  legal := h.legal
  unique h₁ h₂ := h.unique ((List.mem_cons.1 h₁).resolve_left nofun)
    ((List.mem_cons.1 h₂).resolve_left nofun)
  nodup := h.nodup
  called he := List.mem_cons_of_mem _ (h.called he)
  answered ha := by
    rcases List.mem_cons.1 ha with ha | ha
    · obtain ⟨rfl, rfl⟩ := Event.answer.inj ha
      exact ⟨o, hmem⟩
    · exact h.answered ha
  realTime := h.realTime.imp fun hlt hbefore => hlt hbefore.of_answer
  phase id' := by
    have hphase := h.phase id'
    have hanswer : ∀ {a'}, id' ≠ id → .answer id' a' ∉ c.history →
        .answer id' a' ∉ (.answer id a :: c.history : List (Event O A)) := fun hne ha hmem =>
      ha ((List.mem_cons.1 hmem).resolve_left fun heq => hne (Event.answer.inj heq).1)
    have hne : c.phase id' ≠ .ended → id' ≠ id := fun hp heq => hp (heq ▸ hended)
    change (c.phase id').Ok obj _ order c.state s' id'
    cases hp : c.phase id' with
    | new =>
      rw [hp] at hphase
      exact ⟨fun o' hmem => hphase.1 o' ((List.mem_cons.1 hmem).resolve_left nofun),
        fun a' => hanswer (hne (by simp [hp])) (hphase.2.1 a'), hphase.2.2⟩
    | waiting o' =>
      rw [hp] at hphase
      exact ⟨List.mem_cons_of_mem _ hphase.1,
        fun a' => hanswer (hne (by simp [hp])) (hphase.2.1 a'), hphase.2.2⟩
    | _ =>
      rw [hp] at hphase
      exact hphase
  exclusive := h.exclusive
  state := h.state

/-- Entering its section, a call takes its place in the order. -/
theorem Inv.enter (h : Inv obj s₀ c order s') {o : O} (hphase : c.phase id = .waiting o)
    (hfree : c.Free obj o) :
    Inv obj s₀ (c.move id c.state (.holding o (obj.code o)))
      (⟨id, o, (obj.apply o s').2⟩ :: order) (obj.apply o s').1 := by
  have hwaiting := h.phase id
  rw [hphase] at hwaiting
  obtain ⟨hcall, hanswer, hid⟩ := hwaiting
  have hstate : c.state = s' := h.state fun id' o' code hp => (hfree id' o' code hp).2
  refine ⟨.cons id o h.legal, h.unique, ?_, fun {e} he => ?_, fun ha => ?_, ?_, fun id' => ?_,
    fun {i i' o₁ o₂ code₁ code₂} hne hi hi' => ?_, fun hall => ?_⟩
  · rw [List.map_cons]
    exact List.nodup_cons.2 ⟨hid, h.nodup⟩
  · rcases List.mem_cons.1 he with rfl | he
    · exact hcall
    · exact h.called he
  · obtain ⟨o', hmem⟩ := h.answered ha
    exact ⟨o', List.mem_cons_of_mem _ hmem⟩
  · -- The call has not been answered, so it comes before no other.
    refine List.pairwise_cons.2 ⟨fun e _ hbefore => ?_, h.realTime⟩
    obtain ⟨a, ha⟩ := hbefore.answered
    exact hanswer a ha
  · by_cases hid' : id' = id
    · subst hid'
      rw [c.move_phase_self]
      refine ⟨⟨_, List.mem_cons_self, ?_⟩, obj.reads_code o⟩
      rw [← hstate]
      rfl
    · rw [c.move_phase_of_ne _ _ hid']
      have hphase' := h.phase id'
      cases hp : c.phase id' with
      | new =>
        rw [hp] at hphase'
        refine ⟨hphase'.1, hphase'.2.1, fun hmem => ?_⟩
        rcases List.mem_cons.1 hmem with heq | hmem
        · exact hid' heq
        · exact hphase'.2.2 hmem
      | waiting o' =>
        rw [hp] at hphase'
        refine ⟨hphase'.1, hphase'.2.1, fun hmem => ?_⟩
        rcases List.mem_cons.1 hmem with heq | hmem
        · exact hid' heq
        · exact hphase'.2.2 hmem
      | holding o' code =>
        -- Both calls read.
        rw [hp] at hphase'
        obtain ⟨⟨a, hmem, heval⟩, hreads⟩ := hphase'
        refine ⟨⟨a, List.mem_cons_of_mem _ hmem, heval.trans ?_⟩, hreads⟩
        rw [obj.apply_fst_of_reads (hfree id' o' code hp).1]
      | released a =>
        rw [hp] at hphase'
        obtain ⟨o', hmem⟩ := hphase'
        exact ⟨o', List.mem_cons_of_mem _ hmem⟩
      | ended => trivial
  · rcases holding_of_move hi with ⟨hi_id, hi⟩ | ⟨hi_id, hi⟩ <;>
      rcases holding_of_move hi' with ⟨hi'_id, hi'⟩ | ⟨hi'_id, hi'⟩
    · exact absurd (hi_id.trans hi'_id.symm) hne
    · obtain ⟨rfl, -⟩ := Phase.holding.inj hi
      exact hfree _ _ _ hi'
    · obtain ⟨rfl, -⟩ := Phase.holding.inj hi'
      exact (hfree _ _ _ hi).symm
    · exact h.exclusive hne hi hi'
  · have hreads := hall id o (obj.code o) (c.move_phase_self ..)
    rw [obj.apply_fst_of_reads hreads]
    exact hstate

/-- An access of a section is the next one towards its end. -/
theorem Inv.access (h : Inv obj s₀ c order s') {o : O} {change : σ → σ} {next : σ → Code σ A}
    (hphase : c.phase id = .holding o (.access change next)) :
    Inv obj s₀ (c.move id (change c.state) (.holding o (next c.state))) order s' := by
  have hholding := h.phase id
  rw [hphase] at hholding
  obtain ⟨⟨a, hmem, heval⟩, hreads⟩ := hholding
  refine ⟨h.legal, h.unique, h.nodup, h.called, h.answered, h.realTime, fun id' => ?_,
    fun {i i' o₁ o₂ code₁ code₂} hne hi hi' => ?_, fun hall => ?_⟩
  · by_cases hid : id' = id
    · subst hid
      rw [c.move_phase_self]
      exact ⟨⟨a, hmem, heval⟩, fun hr => (hreads hr).2 _⟩
    · rw [c.move_phase_of_ne _ _ hid]
      have hphase' := h.phase id'
      cases hp : c.phase id' with
      | holding o' code =>
        rw [hp] at hphase'
        change (∃ a, _ ∧ code.eval (change c.state) = _) ∧ _
        rw [(hreads (h.exclusive hid hp hphase).2).1]
        exact hphase'
      | _ =>
        rw [hp] at hphase'
        exact hphase'
  · rcases holding_of_move hi with ⟨hi_id, hi⟩ | ⟨hi_id, hi⟩ <;>
      rcases holding_of_move hi' with ⟨hi'_id, hi'⟩ | ⟨hi'_id, hi'⟩
    · exact absurd (hi_id.trans hi'_id.symm) hne
    · obtain ⟨rfl, -⟩ := Phase.holding.inj hi
      exact h.exclusive (hi_id ▸ hne) hphase hi'
    · obtain ⟨rfl, -⟩ := Phase.holding.inj hi'
      exact h.exclusive (hi'_id ▸ hne) hi hphase
    · exact h.exclusive hne hi hi'
  · have hr := hall id o (next c.state) (c.move_phase_self ..)
    refine ((hreads hr).1 c.state).trans (h.state fun id' o' code hp => ?_)
    by_cases hid : id' = id
    · subst hid
      obtain ⟨rfl, -⟩ := Phase.holding.inj (hphase.symm.trans hp)
      exact hr
    · exact hall id' o' code ((c.move_phase_of_ne _ _ hid).trans hp)

theorem Inv.step (h : Inv obj s₀ c order s') (hstep : Step obj c id c') :
    ∃ order' s'', Inv obj s₀ c' order' s'' := by
  have hphase := h.phase id
  cases hstep with
  | call o hp =>
    rw [hp] at hphase
    obtain ⟨hcall, hanswer, hid⟩ := hphase
    have hended : Inv obj s₀ (c.move id c.state .ended) order s' :=
      h.move trivial nofun fun o' code hid => by cases hid.symm.trans hp
    have hseen := hended.see_call o (c.move_phase_self ..) hcall hid
    have hmoved := c.move_move id c.state c.state .ended (.waiting o)
    refine ⟨order, s', ?_⟩
    rw [← hmoved]
    refine Inv.move hseen ⟨List.mem_cons_self, fun a hmem => ?_, hid⟩ nofun fun o' code hid => ?_
    · exact hanswer a ((List.mem_cons.1 hmem).resolve_left nofun)
    · cases hid.symm.trans (c.move_phase_self id c.state .ended)
  | enter hp hfree => exact ⟨_, _, h.enter hp hfree⟩
  | access hp => exact ⟨_, _, h.access hp⟩
  | @release o a hp =>
    rw [hp] at hphase
    obtain ⟨⟨a', hmem, heval⟩, -⟩ := hphase
    -- The section has come to its end.
    obtain ⟨hstate, rfl⟩ := Prod.mk.inj heval
    exact ⟨order, s', h.move ⟨o, hmem⟩ nofun fun _ _ _ => hstate⟩
  | @answer a hp =>
    rw [hp] at hphase
    obtain ⟨o, hmem⟩ := hphase
    have hended : Inv obj s₀ (c.move id c.state .ended) order s' :=
      h.move trivial nofun fun o' code hid => by cases hid.symm.trans hp
    exact ⟨order, s', hended.see_answer (c.move_phase_self ..) hmem⟩
  | dropWaiting hp =>
    exact ⟨order, s', h.move trivial nofun fun o' code hid => by cases hid.symm.trans hp⟩
  | dropReleased hp =>
    exact ⟨order, s', h.move trivial nofun fun o' code hid => by cases hid.symm.trans hp⟩

theorem Reachable.exists_inv (h : Reachable obj s c) : ∃ order s', Inv obj s c order s' := by
  induction h with
  | start => exact ⟨[], s, .start⟩
  | step _ hstep ih =>
    obtain ⟨order, s', hinv⟩ := ih
    exact hinv.step hstep

/-- Calls with the same number in a history are the same call. -/
theorem Reachable.call_unique (h : Reachable obj s c) {o o' : O} (hcall : .call id o ∈ c.history)
    (hcall' : .call id o' ∈ c.history) : o = o' := by
  obtain ⟨order, s', hinv⟩ := h.exists_inv
  exact hinv.unique hcall hcall'

/-- The history of any run is linearizable; and once no section is under way, the state is
    what the calls of the order leave. -/
theorem Reachable.linearization (h : Reachable obj s c) :
    ∃ order s', Linearization obj s c.history order ∧ Legal obj s order s' ∧
      ((∀ id o code, c.phase id ≠ .holding o code) → c.state = s') := by
  obtain ⟨order, s', hinv⟩ := h.exists_inv
  exact ⟨order, s', ⟨⟨s', hinv.legal⟩, hinv.nodup, hinv.called, hinv.answered, hinv.realTime⟩,
    hinv.legal, fun hnone => hinv.state fun id o code hp => absurd hp (hnone id o code)⟩

theorem Legal.trans {s'' : σ} {l₁ l₂ : List (Entry O A)} (h₁ : Legal obj s' l₁ s'')
    (h₂ : Legal obj s l₂ s') : Legal obj s (l₁ ++ l₂) s'' := by
  induction h₁ with
  | nil => exact h₂
  | cons id o _ ih => exact .cons id o ih

theorem Legal.append {l₁ l₂ : List (Entry O A)} (h : Legal obj s (l₁ ++ l₂) s') :
    ∃ s'', Legal obj s l₂ s'' ∧ Legal obj s'' l₁ s' := by
  induction l₁ generalizing s' with
  | nil => exact ⟨s', h, .nil⟩
  | cons e l₁ ih =>
    cases h with
    | cons id o h =>
      obtain ⟨s'', h₂, h₁⟩ := ih h
      exact ⟨s'', h₂, .cons id o h₁⟩

/-- A call of an order has been made in the state that the earlier ones leave, and every other
    one in a state that comes before or after it. -/
theorem Legal.exists_at (h : Legal obj s order s') {e : Entry O A} (he : e ∈ order) :
    ∃ later earlier s₁, order = later ++ e :: earlier ∧ Legal obj s earlier s₁ ∧
      e.answer = (obj.apply e.op s₁).2 ∧
        ∀ e' ∈ order, ∃ s₂, (∃ before, Legal obj s before s₂) ∧
          e'.answer = (obj.apply e'.op s₂).2 ∧
            ((∃ between, Legal obj s₁ between s₂) ∨ ∃ between, Legal obj s₂ between s₁) := by
  have hmade : ∀ {s s' order} {e : Entry O A}, Legal obj s order s' → e ∈ order →
      ∃ s₁ earlier later, Legal obj s earlier s₁ ∧ e.answer = (obj.apply e.op s₁).2 ∧
        Legal obj s₁ later s' := by
    intro s s' order e h he
    obtain ⟨later, earlier, rfl⟩ := List.append_of_mem he
    obtain ⟨_, hearlier, hlater⟩ := h.append
    cases hearlier with
    | cons id o hearlier =>
      exact ⟨_, earlier, _, hearlier, rfl, hlater.trans (.cons id o .nil)⟩
  obtain ⟨later, earlier, rfl⟩ := List.append_of_mem he
  obtain ⟨_, hrest, hlater⟩ := h.append
  cases hrest with
  | cons id o hearlier =>
    refine ⟨later, earlier, _, rfl, hearlier, rfl, fun e' he' => ?_⟩
    rcases List.mem_append.1 he' with he' | he'
    · obtain ⟨s₂, between, _, hbetween, ha, _⟩ := hmade hlater he'
      exact ⟨s₂, ⟨_, hbetween.trans (.cons id o hearlier)⟩, ha,
        .inl ⟨_, hbetween.trans (.cons id o .nil)⟩⟩
    · rcases List.mem_cons.1 he' with rfl | he'
      · exact ⟨_, ⟨earlier, hearlier⟩, rfl, .inl ⟨[], .nil⟩⟩
      · obtain ⟨s₂, before, between, hbefore, ha, hbetween⟩ := hmade hearlier he'
        exact ⟨s₂, ⟨before, hbefore⟩, ha, .inr ⟨between, hbetween⟩⟩

/-- A call that was answered before another one was made comes before it. Calls that overlap
    with the time from the first to the second lead from what the first leaves to the state
    in which the second is made. -/
theorem Linearization.exists_between (h : Linearization obj s history order) {id id' : ℕ}
    {a a' : A} (hne : id ≠ id') (hbefore : Before history id id') (ha : .answer id a ∈ history)
    (ha' : .answer id' a' ∈ history) :
    ∃ o o' s₁ s₂ earlier between, .call id o ∈ history ∧ .call id' o' ∈ history ∧
      Legal obj s earlier s₁ ∧ a = (obj.apply o s₁).2 ∧
        Legal obj (obj.apply o s₁).1 between s₂ ∧ a' = (obj.apply o' s₂).2 ∧
          ∀ e ∈ between, .call e.id e.op ∈ history ∧ e.id ≠ id ∧ ¬Before history e.id id ∧
            ¬Before history id' e.id := by
  obtain ⟨o, hmem⟩ := h.answered ha
  obtain ⟨o', hmem'⟩ := h.answered ha'
  refine ⟨o, o', ?_⟩
  have hcall := h.called hmem
  have hcall' := h.called hmem'
  obtain ⟨s', hlegal⟩ := h.legal
  obtain ⟨later, rest, rfl⟩ := List.append_of_mem hmem'
  -- In the order, the answered call is among the earlier ones.
  have hrest : ⟨id, o, a⟩ ∈ rest := by
    rcases List.mem_append.1 hmem with hlater | hrest
    · exact absurd hbefore
        ((List.pairwise_append.1 h.realTime).2.2 _ hlater _ List.mem_cons_self)
    · refine (List.mem_cons.1 hrest).resolve_left fun heq => hne ?_
      exact congrArg Entry.id heq
  obtain ⟨between, earlier, rfl⟩ := List.append_of_mem hrest
  have hothers : ∀ e ∈ between, .call e.id e.op ∈ history ∧ e.id ≠ id ∧
      ¬Before history e.id id ∧ ¬Before history id' e.id := by
    intro e he
    have hmem : e ∈ later ++ ⟨id', o', a'⟩ :: (between ++ ⟨id, o, a⟩ :: earlier) :=
      List.mem_append_right _ (List.mem_cons_of_mem _ (List.mem_append_left _ he))
    have hnodup := h.nodup
    simp only [List.map_append, List.map_cons] at hnodup
    have hbetween := (List.nodup_cons.1 (List.nodup_append.1 hnodup).2.1).2
    have htime := List.pairwise_cons.1 (List.pairwise_append.1 h.realTime).2.1
    refine ⟨h.called hmem, ?_, ?_, htime.1 e (List.mem_append_left _ he)⟩
    · exact (List.nodup_append.1 hbetween).2.2 _ (List.mem_map_of_mem he) _ List.mem_cons_self
    · exact (List.pairwise_append.1 htime.2).2.2 e he _ List.mem_cons_self
  obtain ⟨_, hlegal, -⟩ := hlegal.append
  cases hlegal with
  | cons _ _ hlegal =>
    obtain ⟨_, hearlier, hbetween⟩ := hlegal.append
    cases hearlier with
    | cons _ _ hearlier =>
      exact ⟨_, _, earlier, between, hcall, hcall', hearlier, rfl, hbetween, rfl, hothers⟩

/-- A section that nothing interferes with goes to its end. -/
theorem Reachable.hold (h : Reachable obj s c) {o : O} {code : Code σ A}
    (hphase : c.phase id = .holding o code) :
    Reachable obj s (c.move id (code.eval c.state).1 (.released (code.eval c.state).2)) := by
  induction code generalizing c with
  | answer a => exact h.step (.release hphase)
  | access change next ih =>
    have hnext := ih c.state (h.step (.access hphase)) (c.move_phase_self ..)
    rwa [Config.move_move] at hnext

/-- While no section is under way, a call can be made and answered. -/
theorem Reachable.serve (h : Reachable obj s c)
    (hnone : ∀ id o code, c.phase id ≠ .holding o code) (hnew : c.phase id = .new) (o : O) :
    Reachable obj s (((c.move id (obj.apply o c.state).1 .ended).see (.call id o)).see
      (.answer id (obj.apply o c.state).2)) := by
  have hcall := h.step (.call o hnew)
  have hfree : ((c.move id c.state (.waiting o)).see (.call id o)).Free obj o := by
    intro id' o' code hp
    rcases holding_of_move (s := c.state) hp with ⟨_, hp⟩ | ⟨_, hp⟩
    · cases hp
    · exact absurd hp (hnone _ _ _)
  have henter := hcall.step (.enter (c.move_phase_self id c.state (.waiting o)) hfree)
  have hhold := henter.hold (Config.move_phase_self ..)
  have hanswer := hhold.step (.answer (Config.move_phase_self ..))
  have hmove : ∀ (d : Config σ O A) (event : Event O A) (s : σ) (phase : Phase σ O A),
      (d.see event).move id s phase = (d.move id s phase).see event := fun _ _ _ _ => rfl
  simp only [hmove, Config.move_move] at hanswer
  exact hanswer

/-- After a call is made and answered, no section is under way, either. -/
theorem Reachable.exists_served (h : Reachable obj s c)
    (hnone : ∀ id o code, c.phase id ≠ .holding o code) (hnew : c.phase id = .new) (o : O) :
    ∃ c', Reachable obj s c' ∧ c'.state = (obj.apply o c.state).1 ∧
      c'.history = .answer id (obj.apply o c.state).2 :: .call id o :: c.history ∧
        (∀ id o code, c'.phase id ≠ .holding o code) ∧
          ∀ id', id' ≠ id → c'.phase id' = c.phase id' := by
  refine ⟨_, h.serve hnone hnew o, rfl, rfl, fun id' o' code hp => ?_, fun id' hne => ?_⟩
  · rcases holding_of_move (s := (obj.apply o c.state).1) hp with ⟨_, hp⟩ | ⟨_, hp⟩
    · cases hp
    · exact hnone id' o' code hp
  · exact c.move_phase_of_ne (obj.apply o c.state).1 _ hne

/-- The calls of a list, the latest first, made and answered one after the other from `s`: the
    state in the end, and the history. -/
def serial (obj : Object σ O A) (s : σ) : List O → σ × List (Event O A)
  | [] => (s, [])
  | o :: ops =>
    let result := obj.apply o (serial obj s ops).1
    (result.1, .answer ops.length result.2 :: .call ops.length o :: (serial obj s ops).2)

theorem exists_serial (obj : Object σ O A) (s : σ) (ops : List O) :
    ∃ c, Reachable obj s c ∧ c.state = (serial obj s ops).1 ∧
      c.history = (serial obj s ops).2 ∧ (∀ id o code, c.phase id ≠ .holding o code) ∧
        ∀ id, ops.length ≤ id → c.phase id = .new := by
  induction ops with
  | nil => exact ⟨Sections.start s, .start, rfl, rfl, nofun, fun _ _ => rfl⟩
  | cons o ops ih =>
    obtain ⟨c, h, hstate, hhistory, hnone, hnew⟩ := ih
    obtain ⟨c', h', hstate', hhistory', hnone', hphase⟩ :=
      h.exists_served hnone (hnew ops.length (Nat.le_refl _)) o
    refine ⟨c', h', ?_, ?_, hnone', fun id hid => ?_⟩
    · rw [hstate', hstate]
      rfl
    · rw [hhistory', hhistory, hstate]
      rfl
    · rw [hphase id (Nat.ne_of_gt hid)]
      exact hnew id (Nat.le_of_succ_le hid)

end Order

end Sections
