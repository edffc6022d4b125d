import Mathlib.Data.String.Basic
import Rzid.Lib.HashMap

/-!
# The codecs configuration

`load_codecs_yaml` (`src/codecs.rs`): reads the list of rate features, checks it, and
computes a hash that tells clusters with different features apart. What the function
uses of the world outside is a parameter (`CodecsEnv`). Which lists are accepted, and
with which hash, depends only on the features in lower case, in whatever order
(`loadCodecsYaml_exact`).

The hash is that of the lower-case features, in ascending order, one after the other,
without anything between them. Two lists with the same bytes have the same features if
and only if these are cut at the same places (`sameFeatures_iff`); the features `ab`
and `c` are not told from `a` and `bc` (`hashInput_ambiguous`).
-/

/-- Lists whose images have the same concatenation, and are cut at the same places, are
    equal. -/
theorem List.eq_of_flatMap_eq {α β : Type} {f : α → List β} (hf : Function.Injective f)
    {l l' : List α} (hlength : l.map (fun a => (f a).length) = l'.map fun a => (f a).length)
    (h : l.flatMap f = l'.flatMap f) : l = l' := by
  induction l generalizing l' with
  | nil =>
    cases l' with
    | nil => rfl
    | cons a' l' => cases hlength
  | cons a l ih =>
    cases l' with
    | nil => cases hlength
    | cons a' l' =>
      rw [map_cons, map_cons, cons.injEq] at hlength
      rw [flatMap_cons, flatMap_cons] at h
      obtain ⟨ha, hl⟩ := append_inj h hlength.1
      rw [hf ha, ih hlength.2 hl]

namespace Rzid

/-- The errors of `load_codecs_yaml`. -/
inductive RzError
  | config (message : String)
  deriving DecidableEq

/-- The codecs of the service. -/
structure Codecs where
  rateFeatures : List String
  hash : ℕ
  deriving DecidableEq

/-- What `load_codecs_yaml` uses: the file system, with its errors as they are
    displayed, the YAML parser, the lower-casing of strings, and SHA-256. -/
structure CodecsEnv where
  openFile : String → Except String Unit
  readToString : String → Except String String
  fromStr : String → Except String (List String)
  toLowercase : String → String
  sha256 : List UInt8 → List UInt8

/-- The bytes of a string. -/
def utf8Bytes (s : String) : List UInt8 := s.toUTF8.data.toList

/-- The search for duplicates: a feature fails that occurs, in lower case, before. -/
def checkDuplicates (toLowercase : String → String) (uniqueRateFeatures : HashSet String) :
    List String → Except RzError Unit
  | [] => .ok ()
  | rateFeature :: rateFeatures =>
    if toLowercase rateFeature ∈ uniqueRateFeatures.keys then
      .error (.config ("Duplicate rate_feature: " ++ rateFeature))
    else
      checkDuplicates toLowercase (uniqueRateFeatures.insert (toLowercase rateFeature) ())
        rateFeatures

/-- The lower-case features, in ascending order. -/
def sortedFeatures (toLowercase : String → String) (rateFeatures : List String) : List String :=
  (rateFeatures.map toLowercase).sort

/-- The bytes that the hasher is fed with. -/
def hashInput (toLowercase : String → String) (rateFeatures : List String) : List UInt8 :=
  (sortedFeatures toLowercase rateFeatures).foldl (fun hasher r => hasher ++ utf8Bytes r) []

/-- `u64::from_le_bytes`. -/
def fromLeBytes (bytes : List UInt8) : ℕ := bytes.foldr (fun byte n => byte.toNat + 256 * n) 0

/-- Loads the codecs from a file, and computes their hash. -/
def loadCodecsYaml (env : CodecsEnv) (path : String) : Except RzError Codecs := do
  (env.openFile path).mapError fun e =>
    .config ("Failed to open codecs.yml in " ++ path ++ ": " ++ e)
  let contents ← (env.readToString path).mapError fun e =>
    .config ("Failed to read codecs.yml: " ++ e)
  let rateFeatures ← (env.fromStr contents).mapError fun e =>
    .config ("Failed to parse codecs.yml: " ++ e)
  -- Rate features: 1 to 24 items, no duplicates.
  if rateFeatures.isEmpty || rateFeatures.length > 24 then
    throw (.config ("Rate features must have 1 to 24 items, got " ++ toString rateFeatures.length))
  checkDuplicates env.toLowercase .empty rateFeatures
  let hashBytes := env.sha256 (hashInput env.toLowercase rateFeatures)
  return { rateFeatures := rateFeatures, hash := fromLeBytes (hashBytes.take 8) }

/-! ## What is accepted -/

/-- The search for duplicates succeeds if and only if no two features, and none of
    those met before, are the same in lower case. -/
theorem checkDuplicates_eq_ok_iff {toLowercase : String → String} {seen : HashSet String}
    {rateFeatures : List String} :
    checkDuplicates toLowercase seen rateFeatures = .ok () ↔
      (rateFeatures.map toLowercase).Nodup ∧ ∀ r ∈ rateFeatures, toLowercase r ∉ seen.keys := by
  induction rateFeatures generalizing seen with
  | nil => simp [checkDuplicates]
  | cons r rateFeatures ih =>
    rw [checkDuplicates, List.map_cons, List.nodup_cons, List.forall_mem_cons, List.mem_map]
    split_ifs with hseen
    · exact iff_of_false nofun fun h => h.2.1 hseen
    · rw [ih]
      -- What the rest may not repeat now includes `r`.
      simp only [HashMap.mem_keys_insert, not_or]
      constructor
      · rintro ⟨hnodup, hnew⟩
        exact ⟨⟨fun ⟨r', hr', heq⟩ => (hnew r' hr').1 heq, hnodup⟩, hseen,
          fun r' hr' => (hnew r' hr').2⟩
      · rintro ⟨⟨hr, hnodup⟩, _, hnew⟩
        exact ⟨hnodup, fun r' hr' => ⟨fun heq => hr ⟨r', hr', heq⟩, hnew r' hr'⟩⟩

theorem bind_eq_ok {ε α β : Type} {x : Except ε α} {f : α → Except ε β} {b : β} :
    (x >>= f) = .ok b ↔ ∃ a, x = .ok a ∧ f a = .ok b := by
  cases x with
  | error e => exact ⟨nofun, nofun⟩
  | ok a => exact ⟨fun h => ⟨a, rfl, h⟩, fun ⟨a', h, h'⟩ => Except.ok.inj h ▸ h'⟩

theorem mapError_eq_ok {ε ε' α : Type} {x : Except ε α} {f : ε → ε'} {a : α} :
    x.mapError f = .ok a ↔ x = .ok a := by
  cases x <;> simp [Except.mapError]

/-- The file can be read, and parses to the list. -/
def CodecsEnv.Parses (env : CodecsEnv) (path : String) (rateFeatures : List String) : Prop :=
  env.openFile path = .ok () ∧
    ∃ contents, env.readToString path = .ok contents ∧ env.fromStr contents = .ok rateFeatures

/-- 1 to 24 features that differ in lower case. -/
structure ValidFeatures (toLowercase : String → String) (rateFeatures : List String) : Prop where
  one_le : 1 ≤ rateFeatures.length
  le : rateFeatures.length ≤ 24
  nodup : (rateFeatures.map toLowercase).Nodup

/-- The codecs with the given features. -/
def codecsOf (env : CodecsEnv) (rateFeatures : List String) : Codecs where
  rateFeatures := rateFeatures
  hash := fromLeBytes ((env.sha256 (hashInput env.toLowercase rateFeatures)).take 8)

/-- The codecs are those of the parsed list, which is accepted if and only if it is
    valid. -/
theorem loadCodecsYaml_eq_ok_iff {env : CodecsEnv} {path : String} {codecs : Codecs} :
    loadCodecsYaml env path = .ok codecs ↔
      ∃ rateFeatures, env.Parses path rateFeatures ∧ ValidFeatures env.toLowercase rateFeatures ∧
        codecsOf env rateFeatures = codecs := by
  simp only [loadCodecsYaml, bind_eq_ok, mapError_eq_ok]
  constructor
  · rintro ⟨_, hopen, contents, hread, rateFeatures, hparse, h⟩
    split_ifs at h with hlength
    · cases h
    · obtain ⟨_, hcheck, h⟩ := bind_eq_ok.1 h
      rw [Bool.or_eq_true, not_or, List.isEmpty_iff, decide_eq_true_eq, not_lt] at hlength
      exact ⟨rateFeatures, ⟨hopen, contents, hread, hparse⟩, ⟨List.length_pos_iff.2 hlength.1,
        hlength.2, (checkDuplicates_eq_ok_iff.1 hcheck).1⟩, Except.ok.inj h⟩
  · rintro ⟨rateFeatures, ⟨hopen, contents, hread, hparse⟩, hvalid, rfl⟩
    refine ⟨(), hopen, contents, hread, rateFeatures, hparse, ?_⟩
    have hlength : ¬(rateFeatures.isEmpty || decide (rateFeatures.length > 24)) = true := by
      rw [Bool.or_eq_true, not_or, List.isEmpty_iff, decide_eq_true_eq, not_lt]
      exact ⟨List.length_pos_iff.1 hvalid.one_le, hvalid.le⟩
    rw [if_neg hlength]
    refine bind_eq_ok.2 ⟨(), ?_, rfl⟩
    exact checkDuplicates_eq_ok_iff.2 ⟨hvalid.nodup, fun _ _ => List.not_mem_nil⟩

/-- What is accepted is valid. -/
theorem validFeatures_of_eq_ok {env : CodecsEnv} {path : String} {codecs : Codecs}
    (h : loadCodecsYaml env path = .ok codecs) :
    ValidFeatures env.toLowercase codecs.rateFeatures := by
  obtain ⟨rateFeatures, _, hvalid, rfl⟩ := loadCodecsYaml_eq_ok_iff.1 h
  exact hvalid

/-! ## Lists that differ in order and case -/

theorem CodecsEnv.Parses.unique {env : CodecsEnv} {path : String} {l l' : List String}
    (h : env.Parses path l) (h' : env.Parses path l') : l = l' := by
  obtain ⟨_, contents, hread, hparse⟩ := h
  obtain ⟨_, contents', hread', hparse'⟩ := h'
  obtain rfl : contents = contents' := Except.ok.inj (hread.symm.trans hread')
  exact Except.ok.inj (hparse.symm.trans hparse')

section Reordered

variable {toLowercase : String → String} {l l' : List String}

theorem ValidFeatures.perm (h : ValidFeatures toLowercase l)
    (hperm : (l'.map toLowercase).Perm (l.map toLowercase)) : ValidFeatures toLowercase l' := by
  have hlength : l'.length = l.length := by simpa using hperm.length_eq
  exact ⟨hlength ▸ h.one_le, hlength ▸ h.le, hperm.nodup_iff.2 h.nodup⟩

theorem hashInput_perm (hperm : (l'.map toLowercase).Perm (l.map toLowercase)) :
    hashInput toLowercase l' = hashInput toLowercase l := by
  rw [hashInput, hashInput, sortedFeatures, sortedFeatures, List.sort_congr hperm]

end Reordered

/-- Files that hold a list of features each, lower-cased as the ASCII letters are. -/
def listedCodecs (listed : String → List String) : CodecsEnv where
  openFile _ := .ok ()
  readToString path := .ok path
  fromStr contents := .ok (listed contents)
  toLowercase s := String.ofList (s.toList.map Char.toLower)
  sha256 bytes := bytes

/-- A parsed list is accepted if and only if it has 1 to 24 items that differ in lower
    case, and is returned as it is; and every list that has the same items in lower case,
    in any order, is then accepted with the same hash. -/
theorem loadCodecsYaml_exact (env : CodecsEnv) {path : String} {rateFeatures : List String}
    (hparses : env.Parses path rateFeatures) :
    ((∃ codecs, loadCodecsYaml env path = .ok codecs) ↔
      1 ≤ rateFeatures.length ∧ rateFeatures.length ≤ 24 ∧
        (rateFeatures.map env.toLowercase).Nodup) ∧
    ∀ codecs, loadCodecsYaml env path = .ok codecs →
      codecs.rateFeatures = rateFeatures ∧
      ∀ path' rateFeatures', env.Parses path' rateFeatures' →
        (rateFeatures'.map env.toLowercase).Perm (rateFeatures.map env.toLowercase) →
          loadCodecsYaml env path' =
            .ok { rateFeatures := rateFeatures', hash := codecs.hash } := by
  constructor
  · constructor
    · rintro ⟨codecs, h⟩
      obtain ⟨l, hl, hvalid, rfl⟩ := loadCodecsYaml_eq_ok_iff.1 h
      obtain rfl := hparses.unique hl
      exact ⟨hvalid.one_le, hvalid.le, hvalid.nodup⟩
    · rintro ⟨hone, hle, hnodup⟩
      exact ⟨_, loadCodecsYaml_eq_ok_iff.2 ⟨_, hparses, ⟨hone, hle, hnodup⟩, rfl⟩⟩
  · intro codecs h
    obtain ⟨l, hl, hvalid, rfl⟩ := loadCodecsYaml_eq_ok_iff.1 h
    obtain rfl := hparses.unique hl
    refine ⟨rfl, fun path' rateFeatures' hparses' hperm => loadCodecsYaml_eq_ok_iff.2
      ⟨rateFeatures', hparses', hvalid.perm hperm, ?_⟩⟩
    rw [codecsOf, codecsOf, hashInput_perm hperm]

/-- Two features in either order and case have one hash. -/
theorem loadCodecsYaml_exact_reordered :
    let env := listedCodecs fun path => if path = "1" then ["b", "A"] else ["a", "B"]
    ∃ codecs, loadCodecsYaml env "1" = .ok codecs ∧
      loadCodecsYaml env "2" = .ok { rateFeatures := ["a", "B"], hash := codecs.hash } := by
  intro env
  have hparses : env.Parses "1" ["b", "A"] := ⟨rfl, "1", rfl, rfl⟩
  obtain ⟨haccepted, hreordered⟩ := loadCodecsYaml_exact env hparses
  obtain ⟨codecs, h⟩ := haccepted.2 (by decide)
  exact ⟨codecs, h, (hreordered codecs h).2 "2" ["a", "B"] ⟨rfl, "2", rfl, rfl⟩ (by decide)⟩

/-! ## What the hash tells apart -/

theorem utf8Bytes_injective : Function.Injective utf8Bytes := by
  intro s t h
  have hdata : s.toUTF8.data = t.toUTF8.data := Array.toList_inj.1 h
  exact String.toByteArray_inj.1 (ByteArray.ext hdata)

theorem hashInput_eq (toLowercase : String → String) (rateFeatures : List String) :
    hashInput toLowercase rateFeatures =
      (sortedFeatures toLowercase rateFeatures).flatMap utf8Bytes := by
  have hloop : ∀ (l : List String) (hasher : List UInt8),
      l.foldl (fun hasher r => hasher ++ utf8Bytes r) hasher = hasher ++ l.flatMap utf8Bytes := by
    intro l
    induction l with
    | nil => simp
    | cons r l ih => simp [ih]
  exact hloop _ []

/-- Lists of features that differ in lower case have the same features if and only if
    these are sorted to the same list. -/
theorem sortedFeatures_eq_iff {toLowercase : String → String} {l l' : List String}
    (hl : (l.map toLowercase).Nodup) (hl' : (l'.map toLowercase).Nodup) :
    sortedFeatures toLowercase l = sortedFeatures toLowercase l' ↔
      ∀ f, f ∈ l.map toLowercase ↔ f ∈ l'.map toLowercase := by
  constructor
  · intro h f
    rw [← List.mem_sort, ← List.mem_sort (l := l'.map toLowercase)]
    exact iff_of_eq (congrArg (f ∈ ·) h)
  · intro h
    refine (List.sortedLT_sort hl).eq_of_mem_iff (List.sortedLT_sort hl') fun f => ?_
    exact List.mem_sort.trans ((h f).trans List.mem_sort.symm)

/-- Two accepted lists that are hashed from the same bytes have the same features in
    lower case if and only if the sorted features have the same lengths in bytes. -/
theorem sameFeatures_iff (env : CodecsEnv) {path path' : String} {codecs codecs' : Codecs}
    (h : loadCodecsYaml env path = .ok codecs) (h' : loadCodecsYaml env path' = .ok codecs')
    (hbytes : hashInput env.toLowercase codecs.rateFeatures =
      hashInput env.toLowercase codecs'.rateFeatures) :
    (∀ f, f ∈ codecs.rateFeatures.map env.toLowercase ↔
        f ∈ codecs'.rateFeatures.map env.toLowercase) ↔
      (sortedFeatures env.toLowercase codecs.rateFeatures).map (fun r => (utf8Bytes r).length) =
        (sortedFeatures env.toLowercase codecs'.rateFeatures).map
          fun r => (utf8Bytes r).length := by
  rw [← sortedFeatures_eq_iff (validFeatures_of_eq_ok h).nodup (validFeatures_of_eq_ok h').nodup]
  rw [hashInput_eq, hashInput_eq] at hbytes
  exact ⟨congrArg _, fun hlength => List.eq_of_flatMap_eq utf8Bytes_injective hlength hbytes⟩

/-- The features `ab` and `c` are hashed from the same bytes as `a` and `bc`. -/
theorem hashInput_ambiguous :
    let env := listedCodecs fun path => if path = "1" then ["ab", "c"] else ["a", "bc"]
    ∃ codecs codecs', loadCodecsYaml env "1" = .ok codecs ∧ loadCodecsYaml env "2" = .ok codecs' ∧
      hashInput env.toLowercase codecs.rateFeatures =
        hashInput env.toLowercase codecs'.rateFeatures ∧
      ¬∀ f, f ∈ codecs.rateFeatures.map env.toLowercase ↔
        f ∈ codecs'.rateFeatures.map env.toLowercase := by
  refine ⟨⟨["ab", "c"], _⟩, ⟨["a", "bc"], _⟩, rfl, rfl, by decide, fun h => ?_⟩
  exact absurd ((h "ab").1 (by decide)) (by decide)

/-- The same features in another order and case. -/
theorem sameFeatures_iff_reordered :
    let env := listedCodecs fun path => if path = "1" then ["b", "A"] else ["a", "B"]
    ∃ codecs codecs', loadCodecsYaml env "1" = .ok codecs ∧ loadCodecsYaml env "2" = .ok codecs' ∧
      ∀ f, f ∈ codecs.rateFeatures.map env.toLowercase ↔
        f ∈ codecs'.rateFeatures.map env.toLowercase := by
  intro env
  have h : loadCodecsYaml env "1" = .ok ⟨["b", "A"], _⟩ := rfl
  have h' : loadCodecsYaml env "2" = .ok ⟨["a", "B"], _⟩ := rfl
  exact ⟨_, _, h, h', (sameFeatures_iff env h h' (by decide)).2 (by decide)⟩

end Rzid
