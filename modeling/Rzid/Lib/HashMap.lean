import Mathlib.Data.List.Sort
import Mathlib.Data.List.Destutter

/-!
# Hash tables

Finite maps and sets with the interface of a hash table: lookups, insertions,
removals, and loops over the entries *in an unspecified order*.

* `HashMap K V` keeps its entries by ascending key, so that two maps with the
  same entries are equal (`HashMap.ext_get`). A program never sees this order:
  its loops go through a `Visit`, which may permute the entries at will.
* `HashMap.upsert` is the update of an entry created on demand. A loop of
  upserts files every element under its key, whatever the order of the loop
  (`HashMap.get_foldl_upsert`).
* `HashMap.keysWhere` lists the keys of the entries with a property, in
  ascending order: it is what sorting the keys met by a filtered loop gives
  (`sort_visit_keysWhere`).
-/

/-- A finite map, with one entry for each of its keys. -/
structure HashMap (K V : Type) [LinearOrder K] where
  /-- The entries of the map, by ascending key. -/
  entries : List (K × V)
  sorted : entries.Pairwise fun a b => a.1 < b.1
  deriving DecidableEq

/-- A finite set: a map without values. -/
abbrev HashSet (K : Type) [LinearOrder K] := HashMap K Unit

/-- The order in which loops meet the entries of the tables: any permutation of
    them, for every table (an element of `ι`). -/
structure Visit (ι : Type) where
  order : ι → {α : Type} → List α → List α
  perm (i : ι) {α : Type} (l : List α) : (order i l).Perm l

/-- Loops that meet the entries of every table as they are listed. -/
def Visit.inOrder (ι : Type) : Visit ι := ⟨fun _ _ l => l, fun _ _ l => .refl l⟩

/-- Sorting in ascending order. -/
def List.sort {α : Type} [LinearOrder α] (l : List α) : List α := l.insertionSort (· ≤ ·)

/-- A list, unless it is empty. -/
def List.nonEmpty {α : Type} : List α → Option (List α)
  | [] => none
  | l => some l

namespace List

variable {α : Type}

@[simp] theorem nonEmpty_nil : (@nil α).nonEmpty = none := rfl
@[simp] theorem nonEmpty_cons (a : α) (l : List α) : (a :: l).nonEmpty = some (a :: l) := rfl

@[simp] theorem getD_nonEmpty (l : List α) : l.nonEmpty.getD [] = l := by
  cases l <;> rfl

theorem nonEmpty_of_ne_nil {l : List α} (h : l ≠ []) : l.nonEmpty = some l := by
  cases l with
  | nil => exact absurd rfl h
  | cons a l => rfl

theorem nonEmpty_eq_none_iff {l : List α} : l.nonEmpty = none ↔ l = [] := by
  cases l <;> simp

theorem nonEmpty_eq_some_iff {l l' : List α} : l.nonEmpty = some l' ↔ l = l' ∧ l ≠ [] := by
  cases l <;> simp

variable [LinearOrder α]

@[simp] theorem sort_eq_nil_iff {l : List α} : l.sort = [] ↔ l = [] := by
  rw [← length_eq_zero_iff, sort, length_insertionSort, length_eq_zero_iff]

theorem mem_sort {l : List α} {a : α} : a ∈ l.sort ↔ a ∈ l := mem_insertionSort _

theorem sortedLE_sort (l : List α) : l.sort.SortedLE := (pairwise_insertionSort _ l).sortedLE

theorem sortedLT_sort {l : List α} (h : l.Nodup) : l.sort.SortedLT :=
  sortedLT_iff_nodup_and_sortedLE.2
    ⟨(perm_insertionSort _ l).nodup_iff.2 h, sortedLE_sort l⟩

/-- Sorting does not depend on the order of a list. -/
theorem sort_congr {l l' : List α} (h : l.Perm l') : l.sort = l'.sort :=
  ((perm_insertionSort _ l).trans (h.trans (perm_insertionSort _ l').symm)).eq_of_sortedLE
    (sortedLE_sort l) (sortedLE_sort l')

/-- Sorting any permutation of an ascending list gives that list. -/
theorem sort_eq_of_perm {l s : List α} (h : l.Perm s) (hs : s.SortedLT) : l.sort = s :=
  ((perm_insertionSort _ l).trans h).eq_of_sortedLE (sortedLE_sort l) hs.sortedLE

/-- Removing consecutive repetitions keeps every element. -/
theorem mem_destutter_ne {l : List α} {a : α} : a ∈ l.destutter (· ≠ ·) ↔ a ∈ l := by
  refine ⟨fun h => (destutter_sublist _ l).subset h, fun h => ?_⟩
  have aux : ∀ (l : List α) (b : α), a ∈ b :: l → a ∈ l.destutter' (· ≠ ·) b := by
    intro l
    induction l with
    | nil => exact fun b h => h
    | cons c l ih =>
      intro b h
      by_cases hbc : b = c
      · subst hbc
        rw [destutter'_cons_neg _ (by simp)]
        exact ih b (by simpa using h)
      · rw [destutter'_cons_pos _ hbc, mem_cons]
        exact (mem_cons.1 h).imp id (ih c)
  cases l with
  | nil => exact h
  | cons b l => exact aux l b h

theorem isChain_lt {l : List α} (hle : l.IsChain (· ≤ ·)) (hne : l.IsChain (· ≠ ·)) :
    l.IsChain (· < ·) := by
  induction hle with
  | nil => exact .nil
  | singleton a => exact .singleton a
  | cons_cons hab _ ih =>
    rw [isChain_cons_cons] at hne
    exact .cons_cons (lt_of_le_of_ne hab hne.1) (ih hne.2)

/-- Removing consecutive repetitions from a sorted list leaves no repetition. -/
theorem sortedLT_destutter_ne {l : List α} (h : l.SortedLE) : (l.destutter (· ≠ ·)).SortedLT :=
  (isChain_lt (h.pairwise.sublist (destutter_sublist _ l)).isChain
    (isChain_destutter _ l)).sortedLT

end List

namespace HashMap

variable {K V W : Type} [LinearOrder K]

/-! ## Lookups and updates -/

/-- The map without entries. -/
def empty : HashMap K V := ⟨[], .nil⟩

/-- The value of the key `k`, if it has one. -/
def get (m : HashMap K V) (k : K) : Option V := (m.entries.find? fun e => e.1 = k).map Prod.snd

/-- The number of entries. -/
def len (m : HashMap K V) : ℕ := m.entries.length

/-- Whether there are no entries. -/
def isEmpty (m : HashMap K V) : Bool := m.entries.isEmpty

/-- The keys, in ascending order. -/
def keys (m : HashMap K V) : List K := m.entries.map Prod.fst

/-- Setting the entry of `k` in a list of entries by ascending key. -/
def insertEntry (k : K) (v : V) : List (K × V) → List (K × V)
  | [] => [(k, v)]
  | e :: l =>
    if k < e.1 then (k, v) :: e :: l
    else if k = e.1 then (k, v) :: l
    else e :: insertEntry k v l

theorem mem_insertEntry {k : K} {v : V} {l : List (K × V)}
    (hl : l.Pairwise fun a b => a.1 < b.1) {e : K × V} :
    e ∈ insertEntry k v l ↔ e = (k, v) ∨ (e.1 ≠ k ∧ e ∈ l) := by
  induction l with
  | nil => simp [insertEntry]
  | cons c l ih =>
    rw [List.pairwise_cons] at hl
    have hgt : ∀ e ∈ l, c.1 < e.1 := hl.1
    rw [insertEntry]
    split_ifs with h1 h2
    · have hne : ∀ e ∈ c :: l, e.1 ≠ k := by
        intro e he
        rcases List.mem_cons.1 he with rfl | he
        · exact h1.ne'
        · exact (h1.trans (hgt e he)).ne'
      grind
    · have hne : ∀ e ∈ l, e.1 ≠ k := fun e he => by rw [h2]; exact (hgt e he).ne'
      grind
    · rw [List.mem_cons, ih hl.2, List.mem_cons]
      grind

theorem pairwise_insertEntry {k : K} {v : V} {l : List (K × V)}
    (hl : l.Pairwise fun a b => a.1 < b.1) :
    (insertEntry k v l).Pairwise fun a b => a.1 < b.1 := by
  induction l with
  | nil => simp [insertEntry]
  | cons c l ih =>
    have hc := List.pairwise_cons.1 hl
    rw [insertEntry]
    split_ifs with h1 h2
    · refine List.pairwise_cons.2 ⟨fun e he => ?_, hl⟩
      rcases List.mem_cons.1 he with rfl | he
      · exact h1
      · exact h1.trans (hc.1 e he)
    · exact List.pairwise_cons.2 ⟨fun e he => by rw [h2]; exact hc.1 e he, hc.2⟩
    · refine List.pairwise_cons.2 ⟨fun e he => ?_, ih hc.2⟩
      rcases (mem_insertEntry hc.2).1 he with rfl | ⟨_, he⟩
      · exact lt_of_le_of_ne (not_lt.1 h1) (Ne.symm h2)
      · exact hc.1 e he

/-- Setting the value of `k` to `v`. -/
def insert (m : HashMap K V) (k : K) (v : V) : HashMap K V :=
  ⟨insertEntry k v m.entries, pairwise_insertEntry m.sorted⟩

/-- Removing the entry of `k`, if any. -/
def remove (m : HashMap K V) (k : K) : HashMap K V :=
  ⟨m.entries.filter fun e => e.1 ≠ k, m.sorted.filter _⟩

/-- Updating the value of `k` in place with `f`, starting from `d` if it has none. -/
def upsert (m : HashMap K V) (k : K) (d : V) (f : V → V) : HashMap K V :=
  m.insert k (f ((m.get k).getD d))

/-- Keeping the entries whose value satisfies `p`. -/
def retain (p : V → Bool) (m : HashMap K V) : HashMap K V :=
  ⟨m.entries.filter fun e => p e.2, m.sorted.filter _⟩

/-- Updating every value in place with `f`. -/
def mapVal (f : V → W) (m : HashMap K V) : HashMap K W :=
  ⟨m.entries.map fun e => (e.1, f e.2), List.pairwise_map.2 m.sorted⟩

theorem sortedLT_keys (m : HashMap K V) : m.keys.SortedLT :=
  (List.pairwise_map.2 m.sorted).sortedLT

/-- Two entries of a map with the same key are equal. -/
theorem eq_of_mem_entries {m : HashMap K V} {e e' : K × V} (he : e ∈ m.entries)
    (he' : e' ∈ m.entries) (hk : e.1 = e'.1) : e = e' :=
  List.inj_on_of_nodup_map m.sortedLT_keys.nodup he he' hk

theorem get_eq_some_iff {m : HashMap K V} {k : K} {v : V} :
    m.get k = some v ↔ (k, v) ∈ m.entries := by
  rw [get, Option.map_eq_some_iff]
  constructor
  · rintro ⟨e, he, rfl⟩
    have hk : e.1 = k := by simpa using List.find?_some he
    exact hk ▸ List.mem_of_find?_eq_some he
  · intro h
    have hs : (m.entries.find? fun e => e.1 = k).isSome :=
      List.find?_isSome.2 ⟨_, h, by simp⟩
    obtain ⟨e, he⟩ := Option.isSome_iff_exists.1 hs
    have hk : e.1 = k := by simpa using List.find?_some he
    exact ⟨e, he, by rw [eq_of_mem_entries (List.mem_of_find?_eq_some he) h hk]⟩

theorem get_eq_none_iff {m : HashMap K V} {k : K} : m.get k = none ↔ k ∉ m.keys := by
  rw [Option.eq_none_iff_forall_ne_some, keys, List.mem_map]
  constructor
  · rintro h ⟨⟨_, v⟩, he, rfl⟩
    exact h v (get_eq_some_iff.2 he)
  · exact fun h v hv => h ⟨(k, v), get_eq_some_iff.1 hv, rfl⟩

theorem mem_keys_iff {m : HashMap K V} {k : K} : k ∈ m.keys ↔ ∃ v, m.get k = some v := by
  rw [← not_iff_not, ← get_eq_none_iff, Option.eq_none_iff_forall_ne_some, not_exists]

/-- Two maps with the same lookups are equal. -/
theorem ext_get {m m' : HashMap K V} (h : ∀ k, m.get k = m'.get k) : m = m' := by
  have : Std.Irrefl fun a b : K × V => a.1 < b.1 := ⟨fun a => lt_irrefl a.1⟩
  have : Std.Antisymm fun a b : K × V => a.1 < b.1 :=
    ⟨fun a b h h' => absurd h' h.asymm⟩
  obtain ⟨l, hl⟩ := m
  obtain ⟨l', hl'⟩ := m'
  congr
  refine hl.eq_of_mem_iff hl' fun ⟨k, v⟩ => ?_
  have hk := h k
  rw [← get_eq_some_iff (m := ⟨l, hl⟩), ← get_eq_some_iff (m := ⟨l', hl'⟩), hk]

@[simp] theorem get_empty (k : K) : (empty : HashMap K V).get k = none := rfl

@[simp] theorem keys_empty : (empty : HashMap K V).keys = [] := rfl

theorem get_insert (m : HashMap K V) (k a : K) (v : V) :
    (m.insert k v).get a = if a = k then some v else m.get a := by
  ext w
  rw [get_eq_some_iff, insert, mem_insertEntry m.sorted]
  split_ifs with h
  · simp [h, eq_comm]
  · simp [h, get_eq_some_iff]

@[simp] theorem get_insert_self (m : HashMap K V) (k : K) (v : V) :
    (m.insert k v).get k = some v := by rw [get_insert, if_pos rfl]

theorem get_insert_of_ne (m : HashMap K V) {k a : K} (v : V) (h : a ≠ k) :
    (m.insert k v).get a = m.get a := by rw [get_insert, if_neg h]

theorem get_remove (m : HashMap K V) (k a : K) :
    (m.remove k).get a = if a = k then none else m.get a := by
  ext w
  rw [get_eq_some_iff, remove, List.mem_filter, ← get_eq_some_iff]
  split_ifs with h <;> simp [h]

theorem get_upsert (m : HashMap K V) (k a : K) (d : V) (f : V → V) :
    (m.upsert k d f).get a = if a = k then some (f ((m.get k).getD d)) else m.get a :=
  get_insert m k a _

theorem get_mapVal (f : V → W) (m : HashMap K V) (k : K) :
    (m.mapVal f).get k = (m.get k).map f := by
  ext w
  rw [get_eq_some_iff, Option.map_eq_some_iff, mapVal, List.mem_map]
  constructor
  · rintro ⟨⟨_, v⟩, he, h⟩
    obtain ⟨rfl, rfl⟩ := Prod.mk.inj h
    exact ⟨v, get_eq_some_iff.2 he, rfl⟩
  · rintro ⟨v, hv, rfl⟩
    exact ⟨(k, v), get_eq_some_iff.1 hv, rfl⟩

theorem get_retain (p : V → Bool) (m : HashMap K V) (k : K) :
    (m.retain p).get k = (m.get k).filter p := by
  ext v
  rw [get_eq_some_iff, Option.filter_eq_some_iff, retain, List.mem_filter, ← get_eq_some_iff]

theorem mem_keys_insert {m : HashMap K V} {k a : K} {v : V} :
    a ∈ (m.insert k v).keys ↔ a = k ∨ a ∈ m.keys := by
  rw [← not_iff_not, not_or, ← get_eq_none_iff, ← get_eq_none_iff, get_insert]
  split_ifs with h <;> simp [h]

theorem isEmpty_iff {m : HashMap K V} : m.isEmpty = true ↔ ∀ k, m.get k = none := by
  rw [isEmpty, List.isEmpty_iff]
  constructor
  · intro h k
    rw [get, h]
    rfl
  · intro h
    refine List.eq_nil_iff_forall_not_mem.2 fun ⟨k, v⟩ he => ?_
    exact Option.some_ne_none v ((get_eq_some_iff.2 he).symm.trans (h k))

/-- An entry of `k` that keeps its image `p`, or its lack of it, keeps the keys with
    the image `p`. -/
theorem map_get_insert_eq_some_iff {f : V → W} {m : HashMap K V} {k : K} {v : V} {p : W}
    (h : (m.get k).map f = some p ↔ f v = p) (a : K) :
    ((m.insert k v).get a).map f = some p ↔ (m.get a).map f = some p := by
  rw [get_insert]
  split_ifs with ha
  · rw [ha, h, Option.map_some, Option.some_inj]
  · rfl

/-- Dropping entries without the image `p` keeps the keys with the image `p`. -/
theorem map_get_retain_eq_some_iff {f : V → W} {q : V → Bool} {m : HashMap K V} {p : W}
    (h : ∀ k v, m.get k = some v → q v = true → f v ≠ p) (a : K) :
    ((m.retain fun v => !q v).get a).map f = some p ↔ (m.get a).map f = some p := by
  rw [get_retain]
  cases ha : m.get a with
  | none => rfl
  | some v =>
    have := h a v ha
    by_cases hq : q v <;> simp_all [Option.filter]

/-! ## Sets -/

/-- The set of the elements of a list. -/
def ofList (l : List K) : HashSet K := l.foldl (fun s k => s.insert k ()) empty

theorem mem_keys_foldl_insert {s : HashSet K} {l : List K} {a : K} :
    a ∈ (l.foldl (fun s k => s.insert k ()) s).keys ↔ a ∈ s.keys ∨ a ∈ l := by
  induction l generalizing s with
  | nil => simp
  | cons k l ih => rw [List.foldl_cons, ih, mem_keys_insert, List.mem_cons]; tauto

theorem mem_keys_ofList {l : List K} {a : K} : a ∈ (ofList l).keys ↔ a ∈ l := by
  rw [ofList, mem_keys_foldl_insert, keys_empty]
  simp

/-- Two sets with the same elements are equal. -/
theorem ext_keys {s s' : HashSet K} (h : ∀ k, k ∈ s.keys ↔ k ∈ s'.keys) : s = s' := by
  refine ext_get fun k => Option.ext fun v => ?_
  have hs : ∀ s : HashSet K, s.get k = some v ↔ k ∈ s.keys := fun s =>
    ⟨fun hv => mem_keys_iff.2 ⟨v, hv⟩, fun hk => (mem_keys_iff.1 hk).elim fun _ hv => hv⟩
  rw [hs, hs, h k]

/-- A loop of insertions, over a list computed from the elements of another. -/
theorem foldl_insert_perm {s : HashSet K} {l l' : List K} (h : l.Perm l') :
    l.foldl (fun s k => s.insert k ()) s = l'.foldl (fun s k => s.insert k ()) s :=
  ext_keys fun k => by rw [mem_keys_foldl_insert, mem_keys_foldl_insert, h.mem_iff]

/-- A loop of removals removes the keys of the loop. -/
theorem get_foldl_remove (m : HashMap K V) (l : List K) (k : K) :
    (l.foldl remove m).get k = if k ∈ l then none else m.get k := by
  induction l generalizing m with
  | nil => simp
  | cons a l ih =>
    rw [List.foldl_cons, ih, get_remove]
    by_cases h : k = a <;> by_cases h' : k ∈ l <;> simp [h, h']

/-- Removing, in any order, the keys of the entries with a property keeps the
    other entries. -/
theorem foldl_remove_eq_retain {p : V → Bool} {m : HashMap K V} {l : List K}
    (h : ∀ k, k ∈ l ↔ ∃ v, m.get k = some v ∧ p v = true) :
    l.foldl remove m = m.retain fun v => !p v := by
  refine ext_get fun k => ?_
  rw [get_foldl_remove, get_retain]
  cases hk : m.get k with
  | none => simp
  | some v =>
    have hl : k ∈ l ↔ p v = true := by rw [h k, hk]; simp
    by_cases hp : p v <;> simp [hl, hp, Option.filter]

/-! ## Selections -/

/-- The keys of the entries whose value satisfies `p`, in ascending order. -/
def keysWhere (p : V → Bool) (m : HashMap K V) : List K :=
  (m.entries.filter fun e => p e.2).map Prod.fst

theorem mem_keysWhere {p : V → Bool} {m : HashMap K V} {k : K} :
    k ∈ m.keysWhere p ↔ ∃ v, m.get k = some v ∧ p v = true := by
  simp [keysWhere, get_eq_some_iff]

theorem sortedLT_keysWhere (p : V → Bool) (m : HashMap K V) : (m.keysWhere p).SortedLT :=
  (List.pairwise_map.2 (m.sorted.filter _)).sortedLT

/-- Selections with the same keys are equal. -/
theorem keysWhere_congr {p : V → Bool} {q : W → Bool} {m : HashMap K V} {m' : HashMap K W}
    (h : ∀ k, (∃ v, m.get k = some v ∧ p v = true) ↔ ∃ w, m'.get k = some w ∧ q w = true) :
    m.keysWhere p = m'.keysWhere q :=
  (sortedLT_keysWhere p m).eq_of_mem_iff (sortedLT_keysWhere q m') fun k => by
    rw [mem_keysWhere, mem_keysWhere, h k]

/-- Setting an entry does not change a selection that the entry keeps its place in. -/
theorem keysWhere_insert_of_eq {p : V → Bool} {m : HashMap K V} {k : K} {v : V}
    (h : ((m.get k).map p).getD false = p v) : (m.insert k v).keysWhere p = m.keysWhere p := by
  refine keysWhere_congr fun a => ?_
  by_cases ha : a = k
  · subst ha
    cases hk : m.get a <;> simp_all
  · rw [get_insert_of_ne m v ha]

theorem keysWhere_eq_nil_iff {p : V → Bool} {m : HashMap K V} :
    m.keysWhere p = [] ↔ ∀ k v, m.get k = some v → p v = false := by
  simp [keysWhere, get_eq_some_iff]

/-- The set of the values, under `f`, of the entries whose value satisfies `p`. -/
def imageWhere [LinearOrder W] (p : V → Bool) (f : V → W) (m : HashMap K V) : HashSet W :=
  ofList ((m.entries.filter fun e => p e.2).map fun e => f e.2)

theorem mem_imageWhere [LinearOrder W] {p : V → Bool} {f : V → W} {m : HashMap K V} {w : W} :
    w ∈ (m.imageWhere p f).keys ↔ ∃ k v, m.get k = some v ∧ p v = true ∧ f v = w := by
  rw [imageWhere, mem_keys_ofList]
  simp [get_eq_some_iff, and_assoc]

/-- A selection of entries with an image that no dropped entry has is kept. -/
theorem keysWhere_retain [LinearOrder W] {p q : V → Bool} {f : V → W} {m : HashMap K V} {w : W}
    (h : w ∉ (m.imageWhere q f).keys) (hp : ∀ v, p v = true → f v = w) :
    (m.retain fun v => !q v).keysWhere p = m.keysWhere p := by
  refine keysWhere_congr fun k => ?_
  rw [get_retain]
  cases hk : m.get k with
  | none => simp
  | some v =>
    have : p v = true → q v = false := fun hv => Bool.eq_false_iff.2 fun hq =>
      h (mem_imageWhere.2 ⟨k, v, hk, hq, hp v hv⟩)
    by_cases hv : p v <;> simp_all [Option.filter]

/-- Nothing is dropped if no entry satisfies `p`. -/
theorem retain_eq_self [LinearOrder W] {p : V → Bool} {f : V → W} {m : HashMap K V}
    (h : (m.imageWhere p f).keys = []) : (m.retain fun v => !p v) = m := by
  refine ext_get fun k => ?_
  rw [get_retain]
  cases hk : m.get k with
  | none => rfl
  | some v =>
    have hp : p v = false := Bool.eq_false_iff.2 fun hp =>
      List.eq_nil_iff_forall_not_mem.1 h (f v) (mem_imageWhere.2 ⟨k, v, hk, hp, rfl⟩)
    simp [Option.filter, hp]

/-! ## Loops -/

/-- A loop of updates on demand applies to the value of `k` the updates filed
    under `k`, in the order of the loop. -/
theorem get_foldl_upsert {β : Type} (key : β → K) (d : V) (f : β → V → V) (l : List β)
    (m : HashMap K V) (k : K) :
    (l.foldl (fun m b => m.upsert (key b) d (f b)) m).get k =
      if (l.filter fun b => key b = k) = [] then m.get k
      else some ((l.filter fun b => key b = k).foldl (fun v b => f b v) ((m.get k).getD d)) := by
  induction l generalizing m with
  | nil => simp
  | cons b l ih =>
    rw [List.foldl_cons, ih, get_upsert]
    by_cases h : key b = k
    · subst h
      simp only [if_true, decide_true, List.filter_cons_of_pos, reduceCtorEq, if_false,
        List.foldl_cons, Option.getD_some]
      split_ifs with hl
      · rw [hl, List.foldl_nil]
      · rfl
    · simp [h, Ne.symm h]

/-- A loop appending elements to the lists of their keys collects, for every
    key, its elements. -/
theorem get_foldl_push {α β : Type} (key : β → K) (x : β → α) (l : List β) (k : K) :
    (l.foldl (fun m b => m.upsert (key b) [] (· ++ [x b])) empty).get k =
      ((l.filter fun b => key b = k).map x).nonEmpty := by
  have hpush : ∀ (l : List β) (v : List α), l.foldl (fun v b => v ++ [x b]) v = v ++ l.map x := by
    intro l
    induction l with
    | nil => simp
    | cons b l ih => intro v; simp [ih]
  rw [get_foldl_upsert, hpush]
  split_ifs with h
  · simp [h]
  · rw [List.nonEmpty_of_ne_nil (by simpa using h)]
    simp

/-- A loop counting elements under their keys counts, for every key, its elements. -/
theorem get_foldl_count {β : Type} (key : β → K) (l : List β) (m : HashMap K ℕ) (k : K) :
    (l.foldl (fun m b => m.upsert (key b) 0 (· + 1)) m).get k =
      if (l.filter fun b => key b = k) = [] then m.get k
      else some ((m.get k).getD 0 + (l.filter fun b => key b = k).length) := by
  have hcount : ∀ (l : List β) (n : ℕ), l.foldl (fun n _ => n + 1) n = n + l.length := by
    intro l
    induction l with
    | nil => simp
    | cons b l ih => intro n; rw [List.foldl_cons, ih, List.length_cons]; omega
  rw [get_foldl_upsert, hcount]

/-- A filtered loop is a loop over the filtered list. -/
theorem foldl_ite {α β : Type} (p : β → Prop) [DecidablePred p] (f : α → β → α) (l : List β)
    (a : α) :
    l.foldl (fun a b => if p b then f a b else a) a = (l.filter fun b => p b).foldl f a := by
  induction l generalizing a with
  | nil => rfl
  | cons b l ih => by_cases h : p b <;> simp [h, ih]

/-- Sorting the keys met by a filtered loop. -/
theorem sort_visit_keysWhere {ι : Type} (ord : Visit ι) (i : ι) (p : V → Bool)
    (m : HashMap K V) :
    (((ord.order i m.entries).filter fun e => p e.2).map Prod.fst).sort = m.keysWhere p :=
  List.sort_eq_of_perm (((ord.perm i m.entries).filter _).map _) (m.sortedLT_keysWhere p)

end HashMap
