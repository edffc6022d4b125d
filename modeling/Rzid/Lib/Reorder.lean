import Mathlib.Data.List.Basic

/-!
# Reordering independent steps

Steps with different keys commute, up to a relation `E` that all steps respect. Then runs
of the same steps end alike, up to `E`, if the steps with each key come in the same order
(`SameOrder.foldl`). Steps are known by their labels: two steps with the same label need
not be the same, as long as they do the same up to `E`.

The relation is transitive, but it need not be reflexive: the states that are related to
themselves are the well-formed ones.
-/

namespace List

variable {α β κ σ : Type*} [DecidableEq κ] {key : β → κ} {label : α → β}

/-- The lists have the same elements with each key, in the same order. -/
def SameOrder (key : β → κ) (l l' : List β) : Prop :=
  ∀ k, (l.filter fun b => key b = k) = l'.filter fun b => key b = k

theorem filter_key_cons (b : β) (l : List β) (k : κ) :
    ((b :: l).filter fun c => key c = k) =
      if key b = k then b :: l.filter fun c => key c = k else l.filter fun c => key c = k := by
  rw [filter_cons]
  simp only [decide_eq_true_eq]

theorem SameOrder.eq_nil {l : List β} (h : SameOrder key [] l) : l = [] := by
  refine eq_nil_iff_forall_not_mem.2 fun b hb => ?_
  have hmem : b ∈ l.filter fun c => key c = key b := mem_filter.2 ⟨hb, decide_eq_true rfl⟩
  rw [← h (key b)] at hmem
  exact not_mem_nil hmem

/-- The first element of one list is the first one with its key in the other list. -/
theorem SameOrder.exists_split {b : β} {l l' : List β} (h : SameOrder key (b :: l) l') :
    ∃ before after, l' = before ++ b :: after ∧ (∀ c ∈ before, key c ≠ key b) ∧
      SameOrder key l (before ++ after) := by
  have hb := h (key b)
  rw [filter_key_cons, if_pos rfl, eq_comm, filter_eq_cons_iff] at hb
  obtain ⟨before, after, rfl, hbefore, _, _⟩ := hb
  have hbefore : ∀ c ∈ before, key c ≠ key b := fun c hc hkey =>
    hbefore c hc (decide_eq_true hkey)
  refine ⟨before, after, rfl, hbefore, fun k => ?_⟩
  have hk := h k
  rw [filter_append, filter_key_cons, filter_key_cons] at hk
  rw [filter_append]
  split_ifs at hk with hkey
  · -- No element before has the key.
    have hnil : (before.filter fun c => key c = k) = [] :=
      filter_eq_nil_iff.2 fun c hc hck => hbefore c hc ((of_decide_eq_true hck).trans hkey.symm)
    rw [hnil, nil_append, cons_inj_right] at hk
    rw [hnil, nil_append, hk]
  · exact hk

section Steps

variable {step : σ → α → σ} {E : σ → σ → Prop}

/-- Related states stay related. -/
theorem foldl_congr (hcongr : ∀ s s' a a', E s s' → label a = label a' → E (step s a) (step s' a'))
    (l : List α) {s s' : σ} (hs : E s s') : E (l.foldl step s) (l.foldl step s') := by
  induction l generalizing s s' with
  | nil => exact hs
  | cons a l ih => exact ih (hcongr s s' a a hs rfl)

variable (htrans : ∀ s s' s'', E s s' → E s' s'' → E s s'')
  (hcongr : ∀ s s' a a', E s s' → label a = label a' → E (step s a) (step s' a'))
  (hswap : ∀ s a b, E s s → key (label a) ≠ key (label b) →
    E (step (step s a) b) (step (step s b) a))

include htrans hcongr hswap

omit [DecidableEq κ] in
/-- A step comes first as well as after steps with other keys. -/
theorem foldl_swap {a : α} {l : List α} (hl : ∀ b ∈ l, key (label b) ≠ key (label a)) {s : σ}
    (hs : E s s) : E (l.foldl step (step s a)) (step (l.foldl step s) a) := by
  induction l generalizing s with
  | nil => exact hcongr s s a a hs rfl
  | cons b l ih =>
    have hb := hcongr s s b b hs rfl
    have hrest := ih (fun c hc => hl c (mem_cons_of_mem _ hc)) hb
    have hba := hswap s a b hs (hl b mem_cons_self).symm
    exact htrans _ _ _ (foldl_congr hcongr l hba) hrest

/-- Runs of the same steps end alike, if the steps with each key come in the same order. -/
theorem SameOrder.foldl {l l' : List α} (h : SameOrder key (l.map label) (l'.map label)) {s : σ}
    (hs : E s s) : E (l.foldl step s) (l'.foldl step s) := by
  induction l generalizing l' s with
  | nil =>
    rw [map_eq_nil_iff.1 h.eq_nil]
    exact hs
  | cons a l ih =>
    obtain ⟨before, after, hl', hbefore, hrest⟩ := h.exists_split
    obtain ⟨before, rest, rfl, rfl, hcons⟩ := map_eq_append_iff.1 hl'
    obtain ⟨a', after, rfl, ha, rfl⟩ := map_eq_cons_iff.1 hcons
    rw [← map_append] at hrest
    have ha' := hcongr s s a a' hs ha.symm
    -- The step is moved to the front of the other run.
    have hfront : E (before.foldl step (step s a')) (step (before.foldl step s) a') :=
      foldl_swap htrans hcongr hswap
        (fun b hb => ha ▸ hbefore (label b) (mem_map_of_mem hb)) hs
    rw [foldl_cons, foldl_append, foldl_cons]
    refine htrans _ _ _ (ih hrest (hcongr s s a a hs rfl)) ?_
    rw [foldl_append]
    exact foldl_congr hcongr after (htrans _ _ _ (foldl_congr hcongr before ha') hfront)

end Steps

end List
