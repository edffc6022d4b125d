import Mathlib.Algebra.GroupWithZero.Nat
import Rzid.Lib.HashMap

/-!
# Counting maps

A map `m : HashMap K ℕ` counts `f : K → ℕ` (`m.Counts f`) if it holds the
positive values of `f`, and no entry for the others. Counting up a list of keys
adds their multiplicities to `f` (`Counts.foldl_upsert`); the length of a
selection of the entries of a map changes by at most one when one entry does
(`length_keysWhere_insert`).
-/

/-- A count, unless it is zero. -/
def nonZero (n : ℕ) : Option ℕ := if n = 0 then none else some n

@[simp] theorem nonZero_zero : nonZero 0 = none := rfl

@[simp] theorem getD_nonZero (n : ℕ) : (nonZero n).getD 0 = n := by
  rw [nonZero]
  split_ifs with h <;> simp [h]

theorem nonZero_of_pos {n : ℕ} (h : 0 < n) : nonZero n = some n := by
  rw [nonZero, if_neg h.ne']

theorem nonZero_eq_none_iff {n : ℕ} : nonZero n = none ↔ n = 0 := by
  rw [nonZero]
  split_ifs with h <;> simp [h]

theorem nonZero_eq_some_iff {n m : ℕ} : nonZero n = some m ↔ n = m ∧ 0 < m := by
  rw [nonZero]
  split_ifs with h
  · simp only [false_iff]
    omega
  · simp only [Option.some_inj]
    omega

namespace HashMap

variable {K V : Type} [LinearOrder K]

/-- The map holds the positive values of `f`. -/
def Counts (m : HashMap K ℕ) (f : K → ℕ) : Prop := ∀ k, m.get k = nonZero (f k)

theorem counts_empty : (empty : HashMap K ℕ).Counts fun _ => 0 := fun _ => rfl

theorem Counts.congr {m : HashMap K ℕ} {f g : K → ℕ} (h : m.Counts f) (hfg : ∀ k, f k = g k) :
    m.Counts g := fun k => (h k).trans (by rw [hfg])

/-- There is one map that counts `f`. -/
theorem Counts.unique {m m' : HashMap K ℕ} {f : K → ℕ} (h : m.Counts f) (h' : m'.Counts f) :
    m = m' := ext_get fun k => (h k).trans (h' k).symm

/-- The keys of a counting map are those with a positive count. -/
theorem Counts.mem_keys {m : HashMap K ℕ} {f : K → ℕ} (h : m.Counts f) {k : K} :
    k ∈ m.keys ↔ 0 < f k := by
  rw [← not_iff_not, ← get_eq_none_iff, h k, nonZero_eq_none_iff, Nat.pos_iff_ne_zero, not_not]

/-- Counting maps with the same positive counts have the same keys. -/
theorem Counts.keys_eq {m m' : HashMap K ℕ} {f f' : K → ℕ} (h : m.Counts f) (h' : m'.Counts f')
    (hff' : ∀ k, 0 < f k ↔ 0 < f' k) : m.keys = m'.keys :=
  m.sortedLT_keys.eq_of_mem_iff m'.sortedLT_keys fun k => by
    rw [h.mem_keys, h'.mem_keys, hff' k]

/-- Counting up keys that are counted already keeps the keys. -/
theorem Counts.keys_eq_of_add {m m' : HashMap K ℕ} {f : K → ℕ} {l : List K} (h : m.Counts f)
    (h' : m'.Counts fun k => f k + if k ∈ l then 1 else 0) (hpos : ∀ k ∈ l, 0 < f k) :
    m.keys = m'.keys := by
  refine h.keys_eq h' fun k => ?_
  split_ifs with hk
  · have := hpos k hk
    omega
  · rw [Nat.add_zero]

/-- Counting up one key. -/
theorem Counts.upsert {m : HashMap K ℕ} {f : K → ℕ} (h : m.Counts f) (k : K) :
    (m.upsert k 0 (· + 1)).Counts fun a => f a + if a = k then 1 else 0 := by
  intro a
  rw [get_upsert, h k, getD_nonZero]
  by_cases ha : a = k
  · simp [ha, nonZero]
  · simpa [ha] using h a

/-- Counting up the keys of a list. -/
theorem Counts.foldl_upsert {m : HashMap K ℕ} {f : K → ℕ} (h : m.Counts f) (l : List K) :
    (l.foldl (fun m k => m.upsert k 0 (· + 1)) m).Counts fun a => f a + l.count a := by
  induction l generalizing m f with
  | nil => exact h
  | cons k l ih =>
    refine (ih (h.upsert k)).congr fun a => ?_
    rw [List.count_cons]
    simp only [beq_iff_eq, eq_comm (a := k)]
    omega

/-! ## Counting the entries of a map -/

variable {p : V → Bool}

theorem perm_keysWhere_insert (m : HashMap K V) (k : K) (v : V) :
    ((m.insert k v).keysWhere p).Perm
      ((if p v then [k] else []) ++ (m.remove k).keysWhere p) := by
  refine (List.perm_ext_iff_of_nodup (sortedLT_keysWhere _ _).nodup ?_).2 fun a => ?_
  · split_ifs
    · refine List.nodup_cons.2 ⟨?_, (sortedLT_keysWhere _ _).nodup⟩
      simp [mem_keysWhere, get_remove]
    · exact (sortedLT_keysWhere _ _).nodup
  · rw [List.mem_append, mem_keysWhere, mem_keysWhere]
    simp only [get_insert, get_remove]
    by_cases h : a = k <;> by_cases hv : p v <;> simp [h, hv]

/-- Setting an entry counts it among the others. -/
theorem length_keysWhere_insert (m : HashMap K V) (k : K) (v : V) :
    ((m.insert k v).keysWhere p).length =
      ((m.remove k).keysWhere p).length + if p v then 1 else 0 := by
  rw [(perm_keysWhere_insert m k v).length_eq, List.length_append, Nat.add_comm]
  split_ifs <;> rfl

theorem insert_of_get {m : HashMap K V} {k : K} {v : V} (h : m.get k = some v) :
    m.insert k v = m := by
  refine ext_get fun a => ?_
  rw [get_insert]
  split_ifs with ha
  · rw [ha, h]
  · rfl

theorem remove_of_get {m : HashMap K V} {k : K} (h : m.get k = none) : m.remove k = m := by
  refine ext_get fun a => ?_
  rw [get_remove]
  split_ifs with ha
  · rw [ha, h]
  · rfl

theorem insert_remove (m : HashMap K V) (k : K) (v : V) :
    (m.remove k).insert k v = m.insert k v := by
  refine ext_get fun a => ?_
  simp only [get_insert, get_remove]
  split_ifs <;> rfl

/-- The count of the entries, given one of them. -/
theorem length_keysWhere_of_get {m : HashMap K V} {k : K} {v : V} (h : m.get k = some v) :
    (m.keysWhere p).length = ((m.remove k).keysWhere p).length + if p v then 1 else 0 := by
  rw [← length_keysWhere_insert, insert_of_get h]

theorem length_keysWhere_le (p : V → Bool) (m : HashMap K V) :
    (m.keysWhere p).length ≤ m.len := by
  rw [keysWhere, List.length_map]
  exact List.length_filter_le ..

/-- Setting an entry makes it one more than the others. -/
theorem len_insert (m : HashMap K V) (k : K) (v : V) :
    (m.insert k v).len = (m.remove k).len + 1 := by
  have hall : ∀ m : HashMap K V, (m.keysWhere fun _ => true).length = m.len := fun m => by
    rw [keysWhere, List.length_map, List.filter_true]
    rfl
  rw [← hall, ← hall, length_keysWhere_insert, if_pos rfl]

/-- Setting an entry that is there keeps the number of entries. -/
theorem len_insert_of_get {m : HashMap K V} {k : K} {v : V} (h : m.get k = some v) (w : V) :
    (m.insert k w).len = m.len := by
  rw [len_insert, ← len_insert m k v, insert_of_get h]

theorem nodup_entries (m : HashMap K V) : m.entries.Nodup :=
  m.sorted.imp fun hlt heq => hlt.ne (congrArg Prod.fst heq)

/-- Dropping the entries with a property leaves the others. -/
theorem len_retain_add (p : V → Bool) (m : HashMap K V) :
    (m.retain fun v => !p v).len + (m.keysWhere p).length = m.len := by
  rw [keysWhere, List.length_map, Nat.add_comm, len, len]
  exact (List.length_eq_length_filter_add fun e : K × V => p e.2).symm

section Image

variable {W : Type} [LinearOrder W] (p : V → Bool) (f : V → W) (m : HashMap K V)

theorem perm_keys_ofList (l : List K) : (ofList l).keys.Perm l.dedup :=
  (List.perm_ext_iff_of_nodup (sortedLT_keys _).nodup l.nodup_dedup).2 fun a => by
    rw [mem_keys_ofList, List.mem_dedup]

theorem length_keys_imageWhere : (m.imageWhere p f).keys.length =
    ((m.entries.filter fun e => p e.2).map fun e => f e.2).dedup.length :=
  (perm_keys_ofList _).length_eq

/-- There are at most as many images as entries. -/
theorem length_keys_imageWhere_le :
    (m.imageWhere p f).keys.length ≤ (m.keysWhere p).length := by
  rw [length_keys_imageWhere, keysWhere, List.length_map]
  exact (List.dedup_sublist _).length_le.trans_eq (List.length_map _)

/-- There are as many images as entries if and only if no two entries have the same
    image. -/
theorem length_keys_imageWhere_eq_iff :
    (m.imageWhere p f).keys.length = (m.keysWhere p).length ↔
      ∀ k k' v v', m.get k = some v → m.get k' = some v' → p v = true → p v' = true →
        f v = f v' → k = k' := by
  have hnodup : (m.entries.filter fun e => p e.2).Nodup := (nodup_entries m).filter _
  have hdedup : ((m.entries.filter fun e => p e.2).map fun e => f e.2).dedup.length =
      (m.entries.filter fun e => p e.2).length ↔
        ((m.entries.filter fun e => p e.2).map fun e => f e.2).Nodup := by
    rw [← List.dedup_eq_self, ← List.length_map (fun e : K × V => f e.2)]
    exact ⟨(List.dedup_sublist _).eq_of_length, congrArg List.length⟩
  rw [length_keys_imageWhere, keysWhere, List.length_map, hdedup,
    List.nodup_map_iff_inj_on hnodup]
  constructor
  · intro hinj k k' v v' hk hk' hv hv' heq
    exact congrArg Prod.fst (hinj (k, v) (List.mem_filter.2 ⟨get_eq_some_iff.1 hk, hv⟩) (k', v')
      (List.mem_filter.2 ⟨get_eq_some_iff.1 hk', hv'⟩) heq)
  · intro hinj e he e' he' heq
    obtain ⟨he, hp⟩ := List.mem_filter.1 he
    obtain ⟨he', hp'⟩ := List.mem_filter.1 he'
    exact eq_of_mem_entries he he' (hinj e.1 e'.1 e.2 e'.2 (get_eq_some_iff.2 he)
      (get_eq_some_iff.2 he') hp hp' heq)

end Image

/-! ## The sum of the counts -/

/-- The sum of the values. -/
def total (m : HashMap K ℕ) : ℕ := (m.entries.map Prod.snd).sum

theorem perm_entries_insert (m : HashMap K V) (k : K) (v : V) :
    (m.insert k v).entries.Perm ((k, v) :: (m.remove k).entries) := by
  refine (List.perm_ext_iff_of_nodup (nodup_entries _) ?_).2 fun e => ?_
  · refine List.nodup_cons.2 ⟨?_, nodup_entries _⟩
    simp [remove]
  · rw [insert, mem_insertEntry m.sorted, List.mem_cons, remove, List.mem_filter, decide_eq_true_eq,
      and_comm (a := e ∈ m.entries)]

/-- The sum of the values, with that of one key apart. -/
theorem total_insert (m : HashMap K ℕ) (k : K) (n : ℕ) :
    (m.insert k n).total = n + (m.remove k).total := by
  rw [total, ((perm_entries_insert m k n).map Prod.snd).sum_nat, List.map_cons, List.sum_cons,
    total]

theorem total_eq_add_remove (m : HashMap K ℕ) (k : K) :
    m.total = (m.get k).getD 0 + (m.remove k).total := by
  cases hk : m.get k with
  | none => rw [remove_of_get hk, Option.getD_none, Nat.zero_add]
  | some n => rw [Option.getD_some, ← total_insert, insert_of_get hk]

/-- No value is greater than the sum of all. -/
theorem get_le_total {m : HashMap K ℕ} {k : K} {n : ℕ} (h : m.get k = some n) : n ≤ m.total := by
  rw [total_eq_add_remove m k, h]
  exact Nat.le_add_right _ _

/-- Counting up one key adds one to the sum. -/
theorem total_upsert (m : HashMap K ℕ) (k : K) :
    (m.upsert k 0 (· + 1)).total = m.total + 1 := by
  rw [upsert, total_insert, total_eq_add_remove m k]
  omega

end HashMap
