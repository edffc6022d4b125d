import Rzid.Lib.ReplaceFile
import Rzid.Restart

/-!
# State files on one disk

Any number of services on one machine, each with its own state file. `atomic_write` writes
a snapshot to a file next to the state file, whose name has the extension `json.tmp` in place
of the one it had (`FilePath.tmp`), and renames it. For a state file such as `..x` there is no
such name, and every write fails.

No name is its own temporary name (`tmp_ne`), so a service alone never has a part of a
snapshot in its state file. Services in one directory may get in each other's way:
`state.json` and `state.db` are written to the same temporary file. `state_files_isolated`
says exactly which services do not.

Paths are taken as they are resolved, without links. A state file without a name is left out.
-/

namespace Rzid

open ReplaceFile (Apart whole_iff)

/-! ## Paths -/

/-- A path: the directory that it leads to, and the name of the file. -/
@[ext] structure FilePath where
  directory : List String
  fileName : String
  deriving DecidableEq

/-- `Path::file_stem`: the name up to its last dot, if this is not where it begins. -/
def fileStem (name : String) : String :=
  match (name.toList.reverse.dropWhile (· ≠ '.')).tail.reverse with
  | [] => name
  | stem => String.ofList stem

namespace FilePath

/-- `Path::with_extension`, if this has a file name. The extension is cut off up to the last
    dot of the name: what is left of `..x` is `..`, which stays as it is and is a directory. -/
def withExtension (path : FilePath) (extension : String) : Option FilePath :=
  if fileStem path.fileName = "." then none
  else some { path with fileName := fileStem path.fileName ++ "." ++ extension }

/-- The file that `atomic_write` writes to, if it can write. -/
def tmp (path : FilePath) : Option FilePath := path.withExtension "json.tmp"

end FilePath

theorem fileStem_tmp (stem : String) : fileStem (stem ++ "." ++ "json.tmp") = stem ++ ".json" := by
  have hbefore : ((stem ++ "." ++ "json.tmp").toList.reverse.dropWhile (· ≠ '.')).tail.reverse =
      (stem ++ ".json").toList := by
    simp [String.toList_append]
  rw [fileStem, hbefore]
  split
  · rename_i hnil
    simp [String.toList_append] at hnil
  · exact String.ofList_toList

namespace FilePath

variable {path path' : FilePath}

theorem tmp_eq_some_iff {p : FilePath} : path.tmp = some p ↔
    fileStem path.fileName ≠ "." ∧
      { path with fileName := fileStem path.fileName ++ "." ++ "json.tmp" } = p := by
  rw [tmp, withExtension]
  split_ifs with h <;> simp [h]

theorem tmp_ne (path : FilePath) : path.tmp ≠ some path := by
  intro h
  have hname : fileStem path.fileName ++ "." ++ "json.tmp" = path.fileName :=
    congrArg fileName (tmp_eq_some_iff.1 h).2
  have hstem := fileStem_tmp (fileStem path.fileName)
  rw [hname] at hstem
  have hlength := congrArg String.length hstem
  rw [String.length_append] at hlength
  have hjson : ".json".length = 5 := by decide
  omega

/-- Two state files have a temporary file in common if and only if they are in one directory,
    and have the same name without its extension, other than a dot. -/
theorem exists_tmp_iff : (∃ p, path.tmp = some p ∧ path'.tmp = some p) ↔
    path.directory = path'.directory ∧ fileStem path.fileName = fileStem path'.fileName ∧
      fileStem path.fileName ≠ "." := by
  simp only [tmp_eq_some_iff]
  constructor
  · rintro ⟨p, ⟨hdot, rfl⟩, _, h⟩
    obtain ⟨hdirectory, hname⟩ := FilePath.mk.inj h
    rw [String.append_left_inj, String.append_left_inj] at hname
    exact ⟨hdirectory.symm, hname.symm, hdot⟩
  · rintro ⟨hdirectory, hstem, hdot⟩
    exact ⟨_, ⟨hdot, rfl⟩, hstem ▸ hdot, by rw [hdirectory, hstem]⟩

example : (FilePath.mk ["data"] "state.json").tmp = (FilePath.mk ["data"] "state.db").tmp := by
  decide

example : (FilePath.mk ["data"] "..x").tmp = none := by decide

end FilePath

/-! ## Services -/

variable {I B : Type} [DecidableEq I] [Inhabited B]

omit [Inhabited B] in
/-- Some state is written as something. -/
theorem Json.exists_ne_nil (json : Json (List B)) : ∃ state, json.toVecPretty state ≠ [] := by
  by_contra hnil
  have hall : ∀ state, json.toVecPretty state = [] := fun state =>
    not_not.1 fun hne => hnil ⟨state, hne⟩
  have hstate : ∀ state, json.fromSlice [] = some state := fun state =>
    hall state ▸ json.fromSlice_toVecPretty state
  have heq := (hstate .default).symm.trans
    (hstate { PersistedState.default with globalVersion := 1 })
  exact absurd (Option.some_inj.1 heq) (by decide)

/-- Services whose state files are `path` save their states at any time, each again after it
    has failed or was killed, in any interleaving of the writes and renamings. Each state
    file always holds the whole of the state that its service has saved last, or what it held
    at first, and this is what a start of the service loads, if and only if no two of the
    services have state files in one directory whose names are the same without their
    extensions (other than a dot: those services cannot write), and no state file is the
    temporary file of another service. -/
theorem state_files_isolated (json : Json (List B)) (path : I → FilePath) :
    (∀ disk c, ReplaceFile.Reachable json.toVecPretty FilePath.tmp path disk c → ∀ i,
      c.disk.read (path i) =
          (c.saved i).elim (disk.read (path i)) (fun state => some (json.toVecPretty state)) ∧
        ∀ ord now, AppData.new json ord now (c.disk.read (path i)) =
          (c.saved i).elim (.new json ord now (disk.read (path i))) (AppData.load ord now)) ↔
    ∀ i j, i ≠ j → (path i).tmp ≠ some (path j) ∧
      ((path i).directory = (path j).directory →
        fileStem (path i).fileName = fileStem (path j).fileName →
          fileStem (path i).fileName = ".") := by
  have hapart : Apart FilePath.tmp path ↔ ∀ i j, i ≠ j → (path i).tmp ≠ some (path j) ∧
      ((path i).directory = (path j).directory →
        fileStem (path i).fileName = fileStem (path j).fileName →
          fileStem (path i).fileName = ".") := by
    constructor
    · intro h i j hne
      refine ⟨h.ne i j, fun hdirectory hstem => by_contra fun hdot => hne ?_⟩
      obtain ⟨p, hi, hj⟩ := FilePath.exists_tmp_iff.2 ⟨hdirectory, hstem, hdot⟩
      exact h.inj hi hj
    · intro h
      refine ⟨fun {i j p} hi hj => by_contra fun hne => ?_, fun i j => ?_⟩
      · obtain ⟨hdirectory, hstem, hdot⟩ := FilePath.exists_tmp_iff.1 ⟨p, hi, hj⟩
        exact hdot ((h i j hne).2 hdirectory hstem)
      · by_cases hij : i = j
        · exact hij ▸ FilePath.tmp_ne (path i)
        · exact (h i j hij).1
  rw [← hapart, ← whole_iff json.exists_ne_nil]
  refine forall_congr' fun disk => forall_congr' fun c => imp_congr_right fun _ =>
    ⟨fun h i => (h i).1, fun h i => ⟨h i, fun ord now => ?_⟩⟩
  rw [h i]
  cases c.saved i with
  | none => rfl
  | some state => rw [AppData.new, Option.elim_some, loadFromDisk_toVecPretty, Option.elim_some]

end Rzid
