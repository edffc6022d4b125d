import Mathlib.Data.List.Nodup
import Mathlib.Logic.Function.Basic

/-!
# The last element for each key

In a list of writes, each to a key, the last one to every key counts
(`List.lastWith`). These form a sublist (`List.lasts`), with one element for each
key that is written, and any permutation of it has the same last elements
(`lastWith_of_perm_lasts`).
-/

namespace List

variable {α κ : Type} [DecidableEq κ] {key : α → κ}

/-- The last element of the list with the key `k`. -/
def lastWith (key : α → κ) (l : List α) (k : κ) : Option α := l.reverse.find? fun a => key a = k

/-- The elements that are the last ones with their keys. -/
def lasts (key : α → κ) : List α → List α
  | [] => []
  | a :: l => if key a ∈ l.map key then lasts key l else a :: lasts key l

/-- Appending an element makes it the last one with its key. -/
theorem lastWith_concat (l : List α) (a : α) :
    (l ++ [a]).lastWith key = Function.update (l.lastWith key) (key a) (some a) := by
  funext k
  rw [lastWith, reverse_append, reverse_singleton, singleton_append, find?_cons,
    Function.update_apply]
  by_cases h : key a = k
  · simp [h]
  · simp [h, Ne.symm h, lastWith]

theorem lastWith_cons (a : α) (l : List α) (k : κ) :
    (a :: l).lastWith key k = (l.lastWith key k).or (if key a = k then some a else none) := by
  rw [lastWith, reverse_cons, find?_append, lastWith]
  by_cases h : key a = k <;> simp [h]

theorem mem_of_lastWith {l : List α} {k : κ} {a : α} (h : l.lastWith key k = some a) :
    a ∈ l ∧ key a = k :=
  ⟨mem_reverse.1 (mem_of_find?_eq_some h), by simpa using find?_some h⟩

theorem lastWith_eq_none_iff {l : List α} {k : κ} : l.lastWith key k = none ↔ k ∉ l.map key := by
  simp [lastWith]

/-- If no two elements have the same key, the last one with a key is the only one. -/
theorem lastWith_eq_some_iff {l : List α} (hl : (l.map key).Nodup) {k : κ} {a : α} :
    l.lastWith key k = some a ↔ a ∈ l ∧ key a = k := by
  refine ⟨mem_of_lastWith, fun ⟨ha, hk⟩ => ?_⟩
  cases hb : l.lastWith key k with
  | none => exact absurd (hk ▸ mem_map_of_mem ha) (lastWith_eq_none_iff.1 hb)
  | some b =>
    obtain ⟨hb, hkb⟩ := mem_of_lastWith hb
    rw [inj_on_of_nodup_map hl hb ha (hkb.trans hk.symm)]

theorem map_lasts_subset (l : List α) : (l.lasts key).map key ⊆ l.map key := by
  induction l with
  | nil => exact Subset.refl _
  | cons a l ih =>
    rw [lasts]
    split_ifs
    · exact Subset.trans ih (subset_cons_self _ _)
    · exact cons_subset_cons _ ih

theorem nodup_map_lasts (l : List α) : ((l.lasts key).map key).Nodup := by
  induction l with
  | nil => exact nodup_nil
  | cons a l ih =>
    rw [lasts]
    split_ifs with h
    · exact ih
    · exact nodup_cons.2 ⟨fun ha => h (map_lasts_subset l ha), ih⟩

/-- The last elements have the same last elements. -/
theorem lastWith_lasts (l : List α) (k : κ) :
    (l.lasts key).lastWith key k = l.lastWith key k := by
  induction l with
  | nil => rfl
  | cons a l ih =>
    rw [lasts, lastWith_cons]
    split_ifs with h hk hk
    · -- A later element has the key of `a`.
      obtain ⟨b, hb⟩ := Option.ne_none_iff_exists'.1
        fun hnone : l.lastWith key k = none => lastWith_eq_none_iff.1 hnone (hk ▸ h)
      rw [ih, hb, Option.some_or]
    · rw [ih, Option.or_none]
    · rw [lastWith_cons, ih, if_pos hk]
    · rw [lastWith_cons, ih, if_neg hk]

/-- Any permutation of the last elements has the same last elements. -/
theorem lastWith_of_perm_lasts {l l' : List α} (h : l'.Perm (l.lasts key)) :
    l'.lastWith key = l.lastWith key := by
  funext k
  have hnodup : (l'.map key).Nodup := (h.map key).nodup_iff.2 (nodup_map_lasts l)
  rw [← lastWith_lasts l k]
  refine Option.ext fun a => ?_
  rw [lastWith_eq_some_iff hnodup, lastWith_eq_some_iff (nodup_map_lasts l), h.mem_iff]

end List
