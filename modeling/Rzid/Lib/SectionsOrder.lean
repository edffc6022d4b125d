import Mathlib.Data.List.Pairwise
import Rzid.Lib.Reorder
import Rzid.Lib.Sections

/-!
# Histories that fix an order

Two histories of the same calls, all of them answered. If any two calls with the same key
do not overlap, and come in the same order in both histories, then the calls with each key
are in the same order in both linearizations (`Linearization.sameOrder`): what the clients
wait for, the service cannot reorder.
-/

namespace Sections

variable {σ O A β κ : Type*} [DecidableEq κ] {obj : Object σ O A} {s s' : σ}
  {history history' : List (Event O A)} {order order' : List (Entry O A)}

/-- Of two calls in the order, not each is answered before the other is made. -/
theorem Linearization.before_asymm (h : Linearization obj s history order) {e e' : Entry O A}
    (he : e ∈ order) (he' : e' ∈ order) (hne : e.id ≠ e'.id)
    (hbefore : Before history e.id e'.id) : ¬Before history e'.id e.id := by
  have hpair : order.Pairwise fun x y =>
      ¬(Before history x.id y.id ∧ Before history y.id x.id) :=
    h.realTime.imp fun hxy hboth => hxy hboth.1
  have hsymm : Std.Symm fun x y : Entry O A =>
      ¬(Before history x.id y.id ∧ Before history y.id x.id) :=
    ⟨fun _ _ hxy hboth => hxy hboth.symm⟩
  exact fun hafter => hpair.forall he he' (fun heq => hne (congrArg _ heq)) ⟨hbefore, hafter⟩

/-- The labelled calls of an order, with their numbers. -/
def labelled (label : O → Option β) (order : List (Entry O A)) : List (ℕ × β) :=
  order.filterMap fun e => (label e.op).map fun b => (e.id, b)

variable {label : O → Option β} {key : β → κ}

theorem mem_labelled {id : ℕ} {b : β} :
    (id, b) ∈ labelled label order ↔ ∃ e ∈ order, e.id = id ∧ label e.op = some b := by
  simp only [labelled, List.mem_filterMap, Option.map_eq_some_iff, Prod.mk.injEq]
  constructor
  · rintro ⟨e, he, b', hb, hid, rfl⟩
    exact ⟨e, he, hid, hb⟩
  · rintro ⟨e, he, hid, hb⟩
    exact ⟨e, he, b, hb, hid, rfl⟩

theorem map_snd_labelled :
    (labelled label order).map Prod.snd = order.filterMap fun e => label e.op := by
  rw [labelled, List.map_filterMap]
  simp only [Option.map_map, Function.comp_def, Option.map_id']

/-- A relation between the entries of an order is one between the labelled calls. -/
theorem pairwise_labelled {R : ℕ × β → ℕ × β → Prop}
    (h : order.Pairwise fun e e' => ∀ b b', label e.op = some b → label e'.op = some b' →
      R (e.id, b) (e'.id, b')) : (labelled label order).Pairwise R := by
  refine List.pairwise_filterMap.2 (h.imp fun {e e'} hR x hx x' hx' => ?_)
  obtain ⟨b, hb, rfl⟩ := Option.map_eq_some_iff.1 hx
  obtain ⟨b', hb', rfl⟩ := Option.map_eq_some_iff.1 hx'
  exact hR b b' hb hb'

/-- The labelled calls of a linearization are those of its history, if all are answered. -/
theorem Linearization.mem_labelled_iff (h : Linearization obj s history order)
    (hunique : ∀ {id o o'}, .call id o ∈ history → .call id o' ∈ history → o = o')
    (hanswered : ∀ {id o}, .call id o ∈ history → ∃ a, .answer id a ∈ history) {id : ℕ} {b : β} :
    (id, b) ∈ labelled label order ↔ ∃ o, .call id o ∈ history ∧ label o = some b := by
  rw [mem_labelled]
  constructor
  · rintro ⟨e, he, rfl, hb⟩
    exact ⟨e.op, h.called he, hb⟩
  · rintro ⟨o, ho, hb⟩
    obtain ⟨a, ha⟩ := hanswered ho
    obtain ⟨o', hmem⟩ := h.answered ha
    obtain rfl := hunique (h.called hmem) ho
    exact ⟨_, hmem, rfl, hb⟩

/-- What two histories have in common: the labelled calls, all of them answered, of which
    those with the same key come one after the other, in the same order. -/
structure Alike (label : O → Option β) (key : β → κ) (history history' : List (Event O A)) :
    Prop where
  calls (id : ℕ) (b : β) : (∃ o, .call id o ∈ history ∧ label o = some b) ↔
    ∃ o, .call id o ∈ history' ∧ label o = some b
  answered {id : ℕ} {o : O} : .call id o ∈ history → ∃ a, .answer id a ∈ history
  answered' {id : ℕ} {o : O} : .call id o ∈ history' → ∃ a, .answer id a ∈ history'
  ordered {id id' : ℕ} {o o' : O} {b b' : β} : id ≠ id' → .call id o ∈ history →
    .call id' o' ∈ history → label o = some b → label o' = some b' → key b = key b' →
      (Before history id id' ∧ Before history' id id') ∨
        (Before history id' id ∧ Before history' id' id)

/-- The calls with each key are in the same order in both linearizations. -/
theorem Linearization.sameOrder (h : Linearization obj s history order)
    (h' : Linearization obj s' history' order')
    (hunique : ∀ {id o o'}, .call id o ∈ history → .call id o' ∈ history → o = o')
    (hunique' : ∀ {id o o'}, .call id o ∈ history' → .call id o' ∈ history' → o = o')
    (halike : Alike label key history history') :
    List.SameOrder key (order.filterMap fun e => label e.op)
      (order'.filterMap fun e => label e.op) := by
  intro k
  rw [← map_snd_labelled, ← map_snd_labelled, List.filter_map, List.filter_map]
  refine congrArg (List.map Prod.snd) ?_
  have hmem : ∀ x, x ∈ labelled label order ↔ x ∈ labelled label order' := fun x =>
    (h.mem_labelled_iff hunique halike.answered).trans ((halike.calls x.1 x.2).trans
      (h'.mem_labelled_iff hunique' halike.answered').symm)
  have hnodup : ∀ {s : σ} {history : List (Event O A)} {order : List (Entry O A)},
      Linearization obj s history order → (labelled label order).Nodup := fun h =>
    pairwise_labelled ((List.pairwise_map.1 h.nodup).imp fun hne _ _ _ _ heq =>
      hne (congrArg Prod.fst heq))
  have hantisymm : ∀ x y : ℕ × β, (Before history y.1 x.1 ∧ ¬Before history x.1 y.1) →
      (Before history x.1 y.1 ∧ ¬Before history y.1 x.1) → x = y :=
    fun x y hxy hyx => absurd hyx.1 hxy.2
  refine List.Perm.eq_of_pairwise (fun x y _ _ => hantisymm x y) ?_ ?_
    (((List.perm_ext_iff_of_nodup (hnodup h) (hnodup h')).2 hmem).filter _)
  · refine List.pairwise_filter.2 (pairwise_labelled ?_)
    refine List.Pairwise.imp_of_mem ?_ (h.realTime.and (List.pairwise_map.1 h.nodup))
    intro e e' he he' htime b b' hb hb' hk hk'
    have hkey : key b = key b' := (of_decide_eq_true hk).trans (of_decide_eq_true hk').symm
    rcases halike.ordered htime.2 (h.called he) (h.called he') hb hb' hkey with hbefore | hbefore
    · exact absurd hbefore.1 htime.1
    · exact ⟨hbefore.1, htime.1⟩
  · refine List.pairwise_filter.2 (pairwise_labelled ?_)
    refine List.Pairwise.imp_of_mem ?_ (h'.realTime.and (List.pairwise_map.1 h'.nodup))
    intro e e' he he' htime b b' hb hb' hk hk'
    have hkey : key b = key b' := (of_decide_eq_true hk).trans (of_decide_eq_true hk').symm
    -- The calls are in the other history and its order, too.
    have hother : ∀ {e : Entry O A} {b : β}, e ∈ order' → label e.op = some b →
        ∃ e₁ ∈ order, e₁.id = e.id ∧ label e₁.op = some b := fun {e b} he hb =>
      mem_labelled.1 ((hmem (e.id, b)).2 (mem_labelled.2 ⟨e, he, rfl, hb⟩))
    obtain ⟨e₁, he₁, hid, hb⟩ := hother he hb
    obtain ⟨e₁', he₁', hid', hb'⟩ := hother he' hb'
    rw [← hid, ← hid'] at htime ⊢
    have hordered := halike.ordered htime.2 (h.called he₁) (h.called he₁') hb hb' hkey
    rcases hordered with hbefore | hbefore
    · exact absurd hbefore.2 htime.1
    · exact ⟨hbefore.1, h.before_asymm he₁' he₁ htime.2.symm hbefore.1⟩

end Sections
