import Rzid.Lib.WriteBehindRun
import Rzid.Restart
import Rzid.Service

/-!
# The dirty-flag protocol

The service with its operations and persists interleaved: the write-behind
protocol over the data of the directory (`service`). A mutator is any operation
(a handler or the sweep): it changes the data under the data lock, and calls
`mark_dirty` after releasing it if the operation reported a change. A persist is
`AppState::persist`, called by the flusher or by the shutdown task.

What has to be saved is what the service publishes (`Published`), ordered by age.

* Whenever the flag is clear and no change is still to be flagged, the state file
  loads to what the memory publishes (`file_holds_published`).
* The state file always loads to one snapshot of the memory, the snapshots never go
  back, and failed persists change nothing (`persist_atomic`).
-/

namespace Rzid

/-! ## What is published -/

/-- Everything the queries publish: the datasets and the version manifest. -/
structure Published where
  content : Dataset → Content
  versions : HashMap String Version
  globalVersion : Version

def AppData.published (data : AppData) : Published where
  content := data.content
  versions := data.versions
  globalVersion := data.globalVersion

/-- The version of a dataset: `0` if it is absent from the manifest. -/
def Published.version (p : Published) (ds : Dataset) : Version := (p.versions.get ds.key).getD 0

/-- The order by age: no version is greater, and datasets with the same version have
    the same content. -/
instance : Preorder Published where
  le p q := ∀ ds, p.version ds ≤ q.version ds ∧
    (p.version ds = q.version ds → p.content ds = q.content ds)
  le_refl p := fun _ => ⟨le_rfl, fun _ => rfl⟩
  le_trans p q r hpq hqr := by
    refine fun ds => ⟨(hpq ds).1.trans (hqr ds).1, fun heq => ?_⟩
    have h₁ : p.version ds = q.version ds := (hpq ds).1.antisymm ((hqr ds).1.trans heq.ge)
    have h₂ : q.version ds = r.version ds := (hqr ds).1.antisymm (heq.ge.trans (hpq ds).1)
    exact ((hpq ds).2 h₁).trans ((hqr ds).2 h₂)

/-- The data of the service, whose indexes are those of its records. -/
abbrev Memory := {data : AppData // Indexed data}

variable {Bytes : Type} {data : AppData} (ord : Order) (now : ℕ) (op : Op)

/-- An operation that reports no change publishes what was published. -/
theorem published_of_unreported (hd : Indexed data) (h : (op.exec ord now data).2 = false) :
    (op.exec ord now data).1.published = data.published := by
  have hnil : op.bumps now data = [] := not_not.1 fun hne =>
    Bool.false_ne_true (h.symm.trans ((exec_changed ord now op).2 hne))
  have he := exec_effect ord now op hd
  have hcontent : (op.exec ord now data).1.content = data.content := funext fun ds =>
    (content_eq_of_agree hd he.indexed (exec_agree ord now op hd (by simp [hnil]))).symm
  rw [AppData.published, AppData.published, hcontent, he.bumped.versions,
    he.bumped.globalVersion, hnil]
  rfl

/-- An operation that reports a change publishes something newer. -/
theorem published_lt_of_reported (hd : Indexed data) (h : (op.exec ord now data).2 = true) :
    data.published < (op.exec ord now data).1.published := by
  have hsound := (Step.exec ord now op).versionSound hd
  have he := exec_effect ord now op hd
  obtain ⟨ds, hds⟩ := List.exists_mem_of_ne_nil _ ((exec_changed ord now op).1 h)
  refine lt_of_le_not_ge (fun ds => ⟨hsound.le ds, fun heq =>
    content_eq_of_agree hd he.indexed (hsound.agree ds heq)⟩) fun hge => ?_
  -- The version of a bumped dataset goes up.
  have hle : (op.exec ord now data).1.version ds ≤ data.version ds := (hge ds).1
  rw [version_exec ord now op hd] at hle
  have hpos := List.count_pos_iff.2 hds
  exact (Nat.lt_add_of_pos_right hpos).not_ge hle

/-- What is published after loading a state does not depend on the clock or on
    iteration orders. -/
theorem published_load (ord ord' : Order) (now now' : ℕ) (persisted : PersistedState) :
    (AppData.load ord now persisted).published = (AppData.load ord' now' persisted).published := by
  obtain ⟨_, _, hv, hg⟩ := load_spec ord now persisted
  obtain ⟨_, _, hv', hg'⟩ := load_spec ord' now' persisted
  have hdir : (AppData.load ord now persisted).directory =
      (AppData.load ord' now' persisted).directory :=
    (directory_load ord now persisted).trans (directory_load ord' now' persisted).symm
  have hcontent : (AppData.load ord now persisted).content =
      (AppData.load ord' now' persisted).content := funext fun ds =>
    content_eq_of_agree (indexed_load ..) (indexed_load ..) (hdir ▸ .refl ds)
  rw [AppData.published, AppData.published, hcontent, hv, hg, hv', hg']

/-- What is published after a restart on the snapshot of the data is what was
    published before. -/
theorem published_restart (json : Json Bytes) (hd : Indexed data) :
    (AppData.new json ord now (some (json.toVecPretty data.snapshot))).published =
      data.published := by
  have htwin := twin_restart json hd ord now
  have hcontent : data.content = (AppData.new json ord now
      (some (json.toVecPretty data.snapshot))).content := funext fun ds =>
    content_eq_of_agree htwin.indexed htwin.indexed' (htwin.directory ▸ .refl ds)
  rw [AppData.published, AppData.published, ← hcontent, ← htwin.versions, ← htwin.globalVersion]

/-! ## The protocol -/

/-- The service as a store that is written behind. -/
def service (json : Json Bytes) : WriteBehind Memory PersistedState Bytes Published where
  Mutates m m' reported := ∃ (ord : Order) (now : ℕ) (op : Op),
    m'.1 = (op.exec ord now m.1).1 ∧ reported = (op.exec ord now m.1).2
  snapshot m := m.1.snapshot
  encode := json.toVecPretty
  Starts file m := ∃ (ord : Order) (now : ℕ), m.1 = .new json ord now file
  view m := m.1.published
  viewFile file := (AppData.new json (.inOrder _) 0 file).published
  view_unreported := by
    rintro ⟨data, hd⟩ ⟨_, _⟩ ⟨ord, now, op, rfl, h⟩
    exact published_of_unreported ord now op hd h.symm
  view_reported := by
    rintro ⟨data, hd⟩ ⟨_, _⟩ ⟨ord, now, op, rfl, h⟩
    exact published_lt_of_reported ord now op hd h.symm
  viewFile_encode m := published_restart (.inOrder _) 0 json m.2
  view_start := by
    rintro file ⟨_, _⟩ ⟨ord, now, rfl⟩
    exact published_load ord (.inOrder _) now 0 _

/-- A state of the service: its data, its dirty flag, its files, and where the tasks
    `T` are. -/
abbrev ServiceState (T Bytes : Type) := WriteBehind.Config T Memory PersistedState Bytes

/-- The state of the service at a start on a state file. -/
def startState {T : Type} (json : Json Bytes) (now : ℕ) (file : Option Bytes) :
    ServiceState T Bytes where
  mem := ⟨.new json (.inOrder _) now file, indexed_load _ _ _⟩
  dirty := false
  file := file
  tmp := none
  pc _ := .idle

theorem init_startState {T : Type} (json : Json Bytes) (now : ℕ) (file : Option Bytes) :
    (service json).Init (startState json now file : ServiceState T Bytes) :=
  ⟨⟨.inOrder _, now, rfl⟩, rfl, fun _ => rfl⟩

/-! ## Operations and persists on their own -/

section Alone

open WriteBehind

/-- An operation on its own: it changes the data, and sets the flag if it reports a
    change. -/
theorem exec_alone (json : Json Bytes) (hd : Indexed data) (dirty : Bool)
    (file tmp : Option Bytes) :
    (service json).Alone ⟨⟨data, hd⟩, dirty, file, tmp⟩ .idle
      ⟨⟨(op.exec ord now data).1, indexed_exec ord now op hd⟩,
        dirty || (op.exec ord now data).2, file, tmp⟩ .idle := by
  have hmutates : (service json).Mutates ⟨data, hd⟩
      ⟨(op.exec ord now data).1, indexed_exec ord now op hd⟩ (op.exec ord now data).2 :=
    ⟨ord, now, op, rfl, rfl⟩
  have hlock : (service json).Alone ⟨⟨data, hd⟩, dirty, file, tmp⟩ .idle
      ⟨⟨data, hd⟩, dirty, file, tmp⟩ .mutating := .tail .refl .lockData
  have hchange : (service json).Alone ⟨⟨data, hd⟩, dirty, file, tmp⟩ .idle
      ⟨⟨(op.exec ord now data).1, indexed_exec ord now op hd⟩, dirty, file, tmp⟩
      (.mutated (op.exec ord now data).2) := hlock.tail (.change hmutates)
  cases hreport : (op.exec ord now data).2 with
  | false =>
    rw [Bool.or_false]
    rw [hreport] at hchange
    exact hchange.tail .unlockUnchanged
  | true =>
    rw [Bool.or_true]
    rw [hreport] at hchange
    exact (((hchange.tail .unlockData).tail .lockMark).tail .mark).tail .unlockMark

/-- A persist on its own does what `AppState.persist` does. -/
theorem persist_alone (json : Json Bytes) (io : Bool) (state : AppState)
    (hd : Indexed state.data) (file tmp : Option Bytes) :
    ∃ tmp', (service json).Alone ⟨⟨state.data, hd⟩, state.dirty, file, tmp⟩ .idle
      ⟨⟨state.data, hd⟩, (state.persist json io file).1.dirty,
        (state.persist json io file).2.1, tmp'⟩ .idle := by
  have hlock : ∀ dirty, (service json).Alone ⟨⟨state.data, hd⟩, dirty, file, tmp⟩ .idle
      ⟨⟨state.data, hd⟩, dirty, file, tmp⟩ .persisting := fun _ => .tail .refl .lockPersist
  rw [AppState.persist]
  cases hdirty : state.dirty with
  | false =>
    simp only [Bool.false_eq_true, if_false, hdirty]
    exact ⟨tmp, (hlock false).tail (.clean rfl)⟩
  | true =>
    have hcreate : (service json).Alone ⟨⟨state.data, hd⟩, true, file, tmp⟩ .idle
        ⟨⟨state.data, hd⟩, true, file, none⟩ (.writing state.data.snapshot) :=
      (((((hlock true).tail (.found rfl)).tail .lockSnapshot).tail .copy).tail
        .unlockSnapshot).tail (.create none)
    cases io with
    | true =>
      simp only [if_true]
      exact ⟨none, (((hcreate.tail .write).tail .rename).tail .clear).tail .unlockPersist⟩
    | false =>
      simp only [Bool.false_eq_true, if_true, if_false, hdirty]
      exact ⟨none, (hcreate.tail (.failWrite none)).tail .unlockFailed⟩

/-- A router registers in a new process, and the next persist saves it. -/
theorem exists_saved_registration :
    ∃ s : ServiceState Unit PersistedState,
      Relation.ReflTransGen (service Json.verbatim).Next (startState Json.verbatim 0 none) s ∧
        s.dirty = false ∧ (∀ t, s.pc t = .idle) ∧ s.file = some s.mem.1.snapshot ∧
          s.mem.1.version (.zoneRouters "eu") = 1 := by
  let s₀ : ServiceState Unit PersistedState := startState Json.verbatim 0 none
  have hexec := (exec_alone (.inOrder _) 1 (.call (.registerRouter "r1" "eu"))
    Json.verbatim s₀.mem.2 false none none).next (c := s₀) (t := ()) fun _ h => absurd rfl h
  let state : AppState := ⟨(Op.exec (.inOrder _) 1 (.call (.registerRouter "r1" "eu"))
    s₀.mem.1).1, 60, true, .new⟩
  have hversion : state.data.version (.zoneRouters "eu") = 1 := by decide
  obtain ⟨tmp, hpersist⟩ := persist_alone Json.verbatim true state
    (indexed_exec _ _ _ s₀.mem.2) none none
  have hpersist := hpersist.next (t := ())
    (c := s₀.move () ⟨⟨state.data, indexed_exec _ _ _ s₀.mem.2⟩, true, none, none⟩ .idle)
    fun _ h => absurd rfl h
  exact ⟨_, hexec.trans hpersist, rfl, fun _ => rfl, rfl, hversion⟩

/-- A router registers in a new process, a persist fails to write, and the next one saves
    the router. -/
theorem exists_failed_persist :
    ∃ (ρ : ℕ → ServiceState Unit PersistedState) (m n l : ℕ), (service Json.verbatim).IsRun ρ ∧
      m ≤ n ∧ n ≤ l ∧ (ρ m).pc () = .persisting ∧
      (∀ i, m ≤ i → i ≤ n → (ρ i).pc () ≠ .idle) ∧ (ρ n).pc () = .failed ∧
      (∀ i, n ≤ i → i < l → ∃ u e, (service Json.verbatim).Step (ρ i) u e (ρ (i + 1))) ∧
      (ρ l).dirty = false := by
  let s₀ : ServiceState Unit PersistedState := startState Json.verbatim 0 none
  let mem : Memory := ⟨_, indexed_exec (.inOrder _) 1 (.call (.registerRouter "r1" "eu")) s₀.mem.2⟩
  let s : Shared Memory PersistedState := ⟨mem, true, none, none⟩
  have hidle : ∀ u, u ≠ () → s₀.pc u = .idle := fun _ hu => absurd rfl hu
  have hlock : (service Json.verbatim).Alone s₀.toShared .idle s .persisting :=
    (exec_alone (.inOrder _) 1 _ Json.verbatim s₀.mem.2 false none none).tail .lockPersist
  -- From the lock to the failure, the task is in its persist.
  let R (c c' : ServiceState Unit PersistedState) : Prop :=
    (∃ t e, (service Json.verbatim).Step c t e c') ∧ c'.pc () ≠ .idle
  have hstep {s s' p p' e} (h : (service Json.verbatim).Local s p e s' p') (hp : p' ≠ .idle) :
      R (s₀.move () s p) (s₀.move () s' p') :=
    ⟨⟨(), e, .solo_move hidle h⟩, by simpa using hp⟩
  have hfails : Relation.ReflTransGen R (s₀.move () s .persisting) (s₀.move () s .failed) :=
    (((((Relation.ReflTransGen.single (hstep (.found rfl) nofun)).tail
      (hstep .lockSnapshot nofun)).tail (hstep .copy nofun)).tail
      (hstep .unlockSnapshot nofun)).tail (hstep (.create none) nofun)).tail
      (hstep (.failWrite none) nofun)
  have hunlock := Step.solo_move (w := service Json.verbatim) (s := s) hidle .unlockFailed
  obtain ⟨tmp, hpersist⟩ := persist_alone Json.verbatim true ⟨mem.1, 60, true, .new⟩ mem.2 none none
  have hsaves := (hpersist.steps (c := s₀.move () s .idle) (t := ())
    fun u hu => absurd rfl hu).head ⟨(), _, hunlock⟩
  obtain ⟨ρ₁, m, hρ₁, -, hm⟩ := exists_isRun (init_startState _ _ _) (hlock.next (c := s₀) hidle)
  obtain ⟨ρ₂, n, hρ₂, hmn, hsame₂, hn, hcall⟩ := hρ₁.exists_extend
    (fun _ _ h => .inl h.1) (hm.symm ▸ hfails)
  obtain ⟨ρ, l, hρ, hnl, hsame, hl, halive⟩ := hρ₂.exists_extend
    (fun _ _ => .inl) (hn.symm ▸ hsaves)
  have hm : (ρ m).pc () = .persisting := by rw [hsame m hmn, hsame₂ m le_rfl, hm]; simp
  have hn : (ρ n).pc () = .failed := by rw [hsame n le_rfl, hn]; simp
  refine ⟨ρ, m, n, l, hρ, hmn, hnl, hm, fun i hmi hin => ?_, hn, halive, by rw [hl]; rfl⟩
  obtain rfl | hlt := hmi.eq_or_lt
  · rw [hm]
    nofun
  · obtain ⟨i, rfl⟩ := Nat.exists_eq_add_one_of_ne_zero (Nat.ne_zero_of_lt hlt)
    rw [hsame (i + 1) hin]
    exact (hcall i (Nat.le_of_lt_succ hlt) hin).2

end Alone

/-! ## What the state file holds -/

variable {T : Type} [DecidableEq T] {json : Json Bytes}

/-- Whenever the dirty flag is clear and no mutator is between its change and the
    end of its `mark_dirty`, the state file loads to what the memory publishes. -/
theorem file_holds_published {s : ServiceState T Bytes} (h : (service json).Reachable s)
    (hdirty : s.dirty = false) (hpending : ∀ t, ¬(s.pc t).Pending) (ord : Order) (now : ℕ) :
    let loaded := AppData.new json ord now s.file
    (∀ ds, loaded.content ds = s.mem.1.content ds) ∧ loaded.versions = s.mem.1.versions ∧
      loaded.globalVersion = s.mem.1.globalVersion := by
  have hsaved : (AppData.new json ord now s.file).published = s.mem.1.published :=
    (published_load ord (.inOrder _) now 0 _).trans (h.saved hdirty hpending)
  exact ⟨congrFun (congrArg Published.content hsaved), congrArg Published.versions hsaved,
    congrArg Published.globalVersion hsaved⟩

/-- The file of a process that has saved a router loads to its zone. -/
theorem file_holds_published_registered :
    ∃ s : ServiceState Unit PersistedState, s.mem.1.version (.zoneRouters "eu") = 1 ∧
      (AppData.new Json.verbatim (.inOrder _) 2 s.file).content (.zoneRouters "eu") =
        s.mem.1.content (.zoneRouters "eu") := by
  obtain ⟨s, hrun, hdirty, hidle, _, hversion⟩ := exists_saved_registration
  refine ⟨s, hversion, (file_holds_published ((WriteBehind.Reachable.init
    (init_startState _ _ _)).trans hrun) hdirty (fun t => ?_) _ 2).1 _⟩
  rw [hidle]
  exact id

/-- Along a run with failures and kills at any step:
    * the state file is the initial one, and then loads to snapshots of the memory at
      instants that never go back;
    * a persist that returns an error leaves the state file as it was and the dirty
      flag set, and has not changed the memory;
    * a persist that renames leaves a snapshot of an instant since it took the dirty
      lock;
    * after a failed persist, unless the process is killed, the flag is not cleared
      before the state file loads to a snapshot of an instant since the failure. -/
theorem persist_atomic {ρ : ℕ → ServiceState T Bytes} (h : (service json).IsRun ρ) :
    (∃ k : ℕ → WithBot ℕ, Monotone k ∧ ∀ n, k n ≤ WithBot.some n ∧
      (k n = ⊥ → (ρ n).file = (ρ 0).file) ∧
      ∀ i, k n = WithBot.some i → json.loadFromDisk (ρ n).file = (ρ i).mem.1.snapshot) ∧
    (∀ (t : T) (m n : ℕ), m ≤ n → (ρ m).pc t = .persisting →
      (∀ i, m ≤ i → i ≤ n → (ρ i).pc t ≠ .idle) → (ρ n).pc t = .failed →
        (ρ n).file = (ρ m).file ∧ (ρ n).dirty = true ∧
          ∀ i, m ≤ i → i < n → (ρ (i + 1)).pc t ≠ (ρ i).pc t → (ρ (i + 1)).mem = (ρ i).mem) ∧
    (∀ (t : T) (m n : ℕ), m ≤ n → (ρ m).pc t = .persisting → (ρ n).pc t = .renamed →
      ∃ i, m ≤ i ∧ i ≤ n ∧ json.loadFromDisk (ρ n).file = (ρ i).mem.1.snapshot) ∧
    ∀ (t : T) (m n : ℕ), m ≤ n → (ρ m).pc t = .failed →
      (∀ i, m ≤ i → i < n → ρ (i + 1) = ρ i ∨ ∃ u e, (service json).Step (ρ i) u e (ρ (i + 1))) →
        (ρ n).dirty = false →
          ∃ i, m ≤ i ∧ i ≤ n ∧ json.loadFromDisk (ρ n).file = (ρ i).mem.1.snapshot := by
  refine ⟨?_, fun t m n hmn hlock hcall hfail => h.persist_failed hmn hlock hcall hfail,
    fun t m n hmn hlock hrenamed => ?_, fun t m n hmn hfail halive hclear => ?_⟩
  · obtain ⟨k, hmono, hk⟩ := h.exists_instants
    refine ⟨k, hmono, fun n => ⟨(hk n).1, (hk n).2.1, fun i hi => ?_⟩⟩
    rw [(hk n).2.2 i hi]
    exact loadFromDisk_toVecPretty json _
  · obtain ⟨i, hmi, hin, hfile⟩ := h.persist_renamed hmn hlock hrenamed
    refine ⟨i, hmi, hin, ?_⟩
    rw [hfile]
    exact loadFromDisk_toVecPretty json _
  · obtain ⟨i, hmi, hin, hfile⟩ := h.failed_saved hmn hfail halive hclear
    refine ⟨i, hmi, hin, ?_⟩
    rw [hfile]
    exact loadFromDisk_toVecPretty json _

/-- A persist that fails to write leaves the file as it was, and the flag set; when the
    flag is clear again, the file is a snapshot since. -/
theorem persist_atomic_registered :
    ∃ (ρ : ℕ → ServiceState Unit PersistedState) (m n l i : ℕ),
      ((ρ m).pc () = .persisting ∧ (ρ n).pc () = .failed ∧ (ρ n).file = (ρ m).file ∧
        (ρ n).dirty = true) ∧
      n ≤ i ∧ i ≤ l ∧ (ρ l).dirty = false ∧
        Json.verbatim.loadFromDisk (ρ l).file = (ρ i).mem.1.snapshot := by
  obtain ⟨ρ, m, n, l, hρ, hmn, hnl, hm, hcall, hn, halive, hclear⟩ := exists_failed_persist
  obtain ⟨-, hfailed, -, hretried⟩ := persist_atomic hρ
  obtain ⟨hfile, hdirty, -⟩ := hfailed () m n hmn hm hcall hn
  obtain ⟨i, hni, hil, hsaved⟩ := hretried () n l hnl hn
    (fun i hni hil => .inr (halive i hni hil)) hclear
  exact ⟨ρ, m, n, l, i, ⟨hm, hn, hfile, hdirty⟩, hni, hil, hclear, hsaved⟩

end Rzid
