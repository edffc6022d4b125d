import Rzid.Concurrent

/-!
# The global version

The global version is the sum of all dataset versions (`Summed`): every bump adds one
to both, a snapshot copies both at one instant, and a start reads both from the same
file. So it is in every state of the service, whatever is killed and restarted
(`globalVersion_eq_total`).

Within a lifetime of the process, the global version counts the bumps (`Later`). Two
reads of the manifest with the same global version therefore have no bump between
them, and read the same versions of the same contents.
-/

namespace Rzid

/-- The global version is the sum of the dataset versions. -/
def Summed (persisted : PersistedState) : Prop :=
  persisted.globalVersion = persisted.versions.total

theorem total_bumpVersions (versions : HashMap String Version) (bumps : List Dataset) :
    (bumpVersions versions bumps).total = versions.total + bumps.length := by
  induction bumps generalizing versions with
  | nil => rfl
  | cons ds bumps ih =>
    refine (ih _).trans ?_
    rw [HashMap.total_upsert, List.length_cons]
    omega

theorem Bumped.summed {bumps : List Dataset} {data data' : AppData} (h : Bumped bumps data data')
    (hdata : Summed data.snapshot) : Summed data'.snapshot := by
  have hsum : data.globalVersion = data.versions.total := hdata
  change data'.globalVersion = data'.versions.total
  rw [h.versions, h.globalVersion, total_bumpVersions, hsum]

section Service

variable {T Bytes : Type} [DecidableEq T] {json : Json Bytes}

/-- The sum is kept by every operation, and goes through the state file. -/
theorem stable_summed (json : Json Bytes) :
    (service json).Stable (fun m => Summed m.1.snapshot)
      fun file => Summed (json.loadFromDisk file) where
  mutates := by
    rintro ⟨data, hd⟩ ⟨_, _⟩ reported ⟨ord, now, op, rfl, _⟩ h
    exact (exec_effect ord now op hd).bumped.summed h
  save := by
    intro m h
    exact (loadFromDisk_toVecPretty json m.1.snapshot).symm ▸ h
  start := by
    rintro file ⟨_, _⟩ ⟨ord, now, rfl⟩ h
    obtain ⟨_, _, hv, hg⟩ := load_spec ord now (json.loadFromDisk file)
    exact hg.trans (Eq.trans h (congrArg HashMap.total hv.symm))

/-! ## Two reads within a lifetime -/

/-- From `data` on to `data'`, the datasets `bumps` have been bumped, and a dataset
    that keeps its version is published unchanged. -/
def Later (data data' : AppData) : Prop :=
  VersionSound data data' ∧ ∃ bumps, Bumped bumps data data'

theorem Later.refl (data : AppData) : Later data data := ⟨.refl data, [], .nil rfl rfl⟩

theorem Later.trans {data data' data'' : AppData} (h : Later data data')
    (h' : Later data' data'') : Later data data'' := by
  obtain ⟨hsound, bumps, hbumped⟩ := h
  obtain ⟨hsound', bumps', hbumped'⟩ := h'
  exact ⟨hsound.trans hsound', bumps ++ bumps', hbumped.trans hbumped'⟩

theorem Later.exec {data : AppData} (hd : Indexed data) (ord : Order) (now : ℕ) (op : Op) :
    Later data (op.exec ord now data).1 :=
  ⟨(Step.exec ord now op).versionSound hd, _, (exec_effect ord now op hd).bumped⟩

/-- Later data with the same global version have the same versions and contents. -/
theorem Later.eq_of_globalVersion {data data' : AppData} (h : Later data data')
    (hd : Indexed data) (hd' : Indexed data') (heq : data'.globalVersion = data.globalVersion) :
    data'.versions = data.versions ∧ ∀ ds, data'.content ds = data.content ds := by
  obtain ⟨hsound, bumps, hbumped⟩ := h
  have hnil : bumps = [] := by
    rw [hbumped.globalVersion, Nat.add_eq_left] at heq
    exact List.length_eq_zero_iff.1 heq
  subst hnil
  refine ⟨hbumped.versions, fun ds => ?_⟩
  exact (content_eq_of_agree hd hd' (hsound.agree ds (hbumped.version ds).symm)).symm

/-- Within a lifetime of the process, the memory only gets later. -/
theorem later_of_steps {s s' : ServiceState T Bytes}
    (hrun : Relation.ReflTransGen (fun s s' => ∃ t e, (service json).Step s t e s') s s') :
    Later s.mem.1 s'.mem.1 := by
  induction hrun with
  | refl => exact .refl _
  | @tail d d' _ hstep ih =>
    obtain ⟨t, e, hstep⟩ := hstep
    obtain ⟨rfl, hlocal, _⟩ := hstep
    refine ih.trans ?_
    rw [WriteBehind.Config.move_toShared]
    rcases hlocal.mem with hmem | ⟨_, _, _, _, ord, now, op, hm, _⟩
    · rw [hmem]
      exact .refl _
    · rw [hm]
      exact .exec d.mem.2 ord now op

/-- In every state of the service, whatever was killed and restarted since a first
    start without a state, the global version of the manifest is the sum of its
    versions. And if two manifests are read within a lifetime of the process, with
    the same global version, then their versions are the same, and so is the content
    of every dataset. -/
theorem globalVersion_eq_total {s₀ s : ServiceState T Bytes} (hinit : (service json).Init s₀)
    (hfile : json.loadFromDisk s₀.file = .default)
    (hrun : Relation.ReflTransGen (service json).Next s₀ s) :
    s.mem.1.versionManifest.globalVersion = s.mem.1.versionManifest.versions.total ∧
      ∀ s', Relation.ReflTransGen (fun s s' => ∃ t e, (service json).Step s t e s') s s' →
        s'.mem.1.versionManifest.globalVersion = s.mem.1.versionManifest.globalVersion →
          s'.mem.1.versionManifest.versions = s.mem.1.versionManifest.versions ∧
            ∀ ds, s'.mem.1.content ds = s.mem.1.content ds := by
  refine ⟨((stable_summed json).run hinit ?_ hrun).mem, fun s' hsteps heq => ?_⟩
  · rw [hfile]
    rfl
  · exact (later_of_steps hsteps).eq_of_globalVersion s.mem.2 s'.mem.2 heq

/-- The manifest of a process that has saved a router. -/
theorem globalVersion_eq_total_registered :
    ∃ s : ServiceState Unit PersistedState, s.mem.1.version (.zoneRouters "eu") = 1 ∧
      s.mem.1.versionManifest.globalVersion = s.mem.1.versionManifest.versions.total := by
  obtain ⟨s, hrun, _, _, _, hversion⟩ := exists_saved_registration
  exact ⟨s, hversion, (globalVersion_eq_total (init_startState _ _ _) rfl hrun).1⟩

end Service

end Rzid
