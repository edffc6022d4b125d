import Rzid.Heartbeat
import Rzid.LastCalls
import Rzid.Lib.SectionsOrder
import Rzid.Requests

/-!
# Schedules of calls

Clients call independently of each other, so their calls can come in any order. What the
service answers afterwards depends only on the order of the registrations of each component,
and on that of the updates of segments; not on when the calls come, nor on iteration orders.

* Calls for different components commute (`twin_swap`), versions included: a call bumps the
  same datasets, whether another one comes before it or not (`bumps_exec`).
* So do sequences of calls (`twin_of_sameOrder`).
* And so do concurrent requests: if each client waits for its answers, the outcome is the
  same, however the service schedules the requests of different clients
  (`concurrent_calls_converge`).

The order of updates of different shards does matter for the versions of their zone, when
they share segments (`not_alike_updates`).
-/

namespace Rzid

variable {data : AppData} {call call' : Call}

/-! ## Two calls -/

theorem insert_comm {V : Type} (m : HashMap String V) {k k' : String} (h : k ≠ k') (v v' : V) :
    (m.insert k v).insert k' v' = (m.insert k' v').insert k v := by
  refine HashMap.ext_get fun a => ?_
  simp only [HashMap.get_insert]
  split_ifs with h₁ h₂
  · exact absurd (h₂.symm.trans h₁) h
  · rfl
  · rfl
  · rfl

/-- Calls for different components set different records. -/
theorem components_comm (h : call.registers ≠ call'.registers) (now now' : ℕ)
    (components : Components) :
    call'.components now' (call.components now components) =
      call.components now (call'.components now' components) := by
  -- Only calls of the same kind set records in the same table.
  cases call <;> cases call' <;> first | rfl | skip
  all_goals
    simp only [Call.components]
    rw [insert_comm]
    rintro rfl
    exact h rfl

/-- Of two calls for different components, at most one updates segments. -/
theorem segments_comm (h : call.registers ≠ call'.registers) (segments : SegmentStore) :
    call'.segments (call.segments segments) = call.segments (call'.segments segments) := by
  cases call with
  | updateSegments shardId zoneId new =>
    cases call' with
    | updateSegments shardId' zoneId' new' => exact absurd rfl h
    | _ => rfl
  | _ => rfl

/-- A call bumps what it would have bumped before a call for another component. -/
theorem bumps_exec (h : call.registers ≠ call'.registers) (hd : Indexed data) (ord : Order)
    (now : ℕ) : call'.bumps (call.exec ord now data).1 = call'.bumps data := by
  have hdir : (call.exec ord now data).1.directory =
      directoryOf (call.components now data.components) (call.segments data.segments) :=
    directory_exec ord now (.call call) hd
  have hsegments : (call.exec ord now data).1.segments = call.segments data.segments :=
    (exec_effect ord now (.call call) hd).segments
  cases call' with
  | updateSegments shardId' zoneId' new' =>
    rw [Call.bumps, Call.bumps, hsegments]
    cases call with
    | updateSegments shardId zoneId new => exact absurd rfl h
    | _ => rfl
  | _ =>
    rw [Call.bumps, Call.bumps, hdir]
    cases call <;> first | rfl | skip
    simp only [directoryOf, AppData.directory, Call.components]
    rw [HashMap.get_insert_of_ne]
    rintro rfl
    exact h rfl

theorem Twin.trans {data' data'' : AppData} (h : Twin data data') (h' : Twin data' data'') :
    Twin data data'' :=
  ⟨h.indexed, h'.indexed', h.directory.trans h'.directory, h.versions.trans h'.versions,
    h.globalVersion.trans h'.globalVersion⟩

/-- Calls for different components commute. -/
theorem twin_swap (h : call.registers ≠ call'.registers) (hd : Indexed data) (env env' : Env) :
    Twin (call'.exec env'.ord env'.now (call.exec env.ord env.now data).1).1
      (call.exec env.ord env.now (call'.exec env'.ord env'.now data).1).1 := by
  have hexec : ∀ (c : Call) (e : Env) {data : AppData}, Indexed data →
      Effect data (c.exec e.ord e.now data).1 (c.components e.now data.components)
        (c.segments data.segments) (c.bumps data) := fun c e {data} hd =>
    exec_effect e.ord e.now (.call c) hd
  have h₁ := hexec call env hd
  have h₂ := hexec call' env' hd
  have h₁₂ := hexec call' env' h₁.indexed
  have h₂₁ := hexec call env h₂.indexed
  rw [h₁.components, h₁.segments, bumps_exec h hd] at h₁₂
  rw [h₂.components, h₂.segments, bumps_exec h.symm hd] at h₂₁
  refine ⟨h₁₂.indexed, h₂₁.indexed, ?_, ?_, ?_⟩
  · rw [AppData.directory, AppData.directory, h₁₂.components, h₁₂.segments, h₂₁.components,
      h₂₁.segments, components_comm h, segments_comm h]
  · rw [h₁₂.bumped.versions, h₁.bumped.versions, h₂₁.bumped.versions, h₂.bumped.versions,
      ← bumpVersions_append, ← bumpVersions_append]
    exact bumpVersions_perm List.perm_append_comm
  · rw [h₁₂.bumped.globalVersion, h₁.bumped.globalVersion, h₂₁.bumped.globalVersion,
      h₂.bumped.globalVersion]
    exact Nat.add_right_comm ..

/-! ## Sequences of calls -/

/-- Two sequences of calls, in which the registrations of each component come in the same
    order, and so do the updates of segments, make twins of twins; whenever the calls are
    made. -/
theorem twin_of_sameOrder (hd : Indexed data) {calls calls' : List (Call × Env)}
    (horder : List.SameOrder Call.registers (calls.map Prod.fst) (calls'.map Prod.fst)) :
    Twin (Call.execAll calls data) (Call.execAll calls' data) := by
  refine horder.foldl (E := Twin) (fun _ _ _ => Twin.trans) (fun s s' c c' hs hc => ?_)
    (fun s c c' hs hc => twin_swap hc hs.indexed c.2 c'.2) (.refl hd)
  rw [← hc]
  exact (hs.exec c.1 c.2.ord c'.2.ord c.2.now c'.2.now).1

/-! ## Concurrent requests -/

section Concurrent

open Sections (Alike Legal)

variable {codecs : Codecs} {order : List (Sections.Entry (Action × Env) (Option Response))}

/-- The calls of an order, the latest first, with their surroundings. -/
def callsOf (order : List (Sections.Entry (Action × Env) (Option Response))) : List (Call × Env) :=
  (order.filterMap fun e => e.op.1.call.map fun call => (call, e.op.2)).reverse

theorem map_fst_callsOf :
    (callsOf order).map Prod.fst = (order.filterMap fun e => e.op.1.call).reverse := by
  rw [callsOf, List.map_reverse, List.map_filterMap]
  simp only [Option.map_map, Function.comp_def, Option.map_id']

theorem callsOf_cons (e : Sections.Entry (Action × Env) (Option Response)) :
    callsOf (e :: order) =
      callsOf order ++ (e.op.1.call.map fun call => (call, e.op.2)).toList := by
  rw [callsOf, List.filterMap_cons, callsOf]
  cases e.op.1.call with
  | none => exact (List.append_nil _).symm
  | some call => exact List.reverse_cons

/-- Requests made one after the other leave what their calls leave. -/
theorem execAll_of_legal {data' : AppData} (h : Legal (api codecs) data order data')
    (hrequests : ∀ e ∈ order, ∃ req, e.op.1 = .request req) :
    data' = Call.execAll (callsOf order) data := by
  induction h with
  | nil => rfl
  | @cons order data' id o _ ih =>
    have ih := ih fun e he => hrequests e (List.mem_cons_of_mem _ he)
    obtain ⟨req, hreq⟩ := hrequests _ List.mem_cons_self
    obtain ⟨action, env⟩ := o
    obtain rfl : action = .request req := hreq
    rw [apply_fst, callsOf_cons, Action.op, Action.call, ih]
    cases req.call with
    | none => exact (congrArg (Call.execAll · data) (List.append_nil _)).symm
    | some call => exact (Call.execAll_concat (callsOf order) (call, env) data).symm

/-- Two executions of the same calls by concurrent requests, in which the registrations of
    each component, and the updates of segments, are each sent after the one before it was
    answered, and in the same order. When all requests are answered, the service answers
    every query alike, however the sections were scheduled, and whenever the calls were
    made. -/
theorem concurrent_calls_converge (hd : Indexed data)
    {c c' : Sections.Config AppData (Action × Env) (Option Response)}
    (h : Sections.Reachable (api codecs) data c) (h' : Sections.Reachable (api codecs) data c')
    (hrequests : ∀ id o, .call id o ∈ c.history ∨ .call id o ∈ c'.history →
      ∃ req, o.1 = .request req)
    (halike : Alike (fun o => o.1.call) Call.registers c.history c'.history)
    (hquiet : ∀ id o code, c.phase id ≠ .holding o code)
    (hquiet' : ∀ id o code, c'.phase id ≠ .holding o code) :
    SameAnswers c.state c'.state := by
  obtain ⟨order, data₁, hlinear, hlegal, hstate⟩ := h.linearization
  obtain ⟨order', data₂, hlinear', hlegal', hstate'⟩ := h'.linearization
  have hcalls := execAll_of_legal hlegal fun e he => hrequests _ _ (.inl (hlinear.called he))
  have hcalls' := execAll_of_legal hlegal' fun e he => hrequests _ _ (.inr (hlinear'.called he))
  rw [hstate hquiet, hstate' hquiet', hcalls, hcalls']
  have hsame := hlinear.sameOrder hlinear' h.call_unique h'.call_unique halike
  refine (twin_of_sameOrder hd fun k => ?_).sameAnswers
  rw [map_fst_callsOf, map_fst_callsOf, List.filter_reverse, List.filter_reverse, hsame k]

/-- A router registers. -/
def registerIn (zoneId : ZoneId) (id : RouterId) : Action × Env :=
  (.request (.register { kind := "router", id := id, zone := zoneId, shard := none }),
    ⟨.inOrder _, 1⟩)

/-- Two routers register, and are answered, in one order and in the other. -/
theorem concurrent_calls_converge_routers :
    ∃ c c' : Sections.Config AppData (Action × Env) (Option Response),
      Sections.Before c.history 0 1 ∧ Sections.Before c'.history 1 0 ∧
        SameAnswers c.state c'.state := by
  let data := AppData.new Json.verbatim (.inOrder _) 0 none
  have hserve : ∀ id₁ id₂ o₁ o₂, id₁ ≠ id₂ →
      ∃ c a₁ a₂, Sections.Reachable (api ⟨[], 0⟩) data c ∧
        (∀ id o code, c.phase id ≠ .holding o code) ∧
          c.history = [.answer id₂ a₂, .call id₂ o₂, .answer id₁ a₁, .call id₁ o₁] := by
    intro id₁ id₂ o₁ o₂ hne
    have hstart : Sections.Reachable (api ⟨[], 0⟩) data (Sections.start data) := .start
    have hidle : (Sections.start (O := Action × Env) (A := Option Response) data).phase id₁ =
      .new := rfl
    obtain ⟨c₁, h₁, _, hhistory₁, hnone₁, hphase₁⟩ :=
      hstart.exists_served (fun _ _ _ => nofun) hidle o₁
    have hnew : c₁.phase id₂ = .new := hphase₁ id₂ hne.symm
    obtain ⟨c₂, h₂, _, hhistory₂, hnone₂, _⟩ := h₁.exists_served hnone₁ hnew o₂
    exact ⟨c₂, _, _, h₂, hnone₂, hhistory₂.trans (by rw [hhistory₁]; rfl)⟩
  obtain ⟨c, a₁, a₂, h, hquiet, hhistory⟩ :=
    hserve 0 1 (registerIn "eu" "r1") (registerIn "eu" "r2") (by decide)
  obtain ⟨c', a₂', a₁', h', hquiet', hhistory'⟩ :=
    hserve 1 0 (registerIn "eu" "r2") (registerIn "eu" "r1") (by decide)
  have hcalls : ∀ id o, .call id o ∈ c.history ↔
      (id = 1 ∧ o = registerIn "eu" "r2") ∨ (id = 0 ∧ o = registerIn "eu" "r1") := by
    simp [hhistory]
  have hcalls' : ∀ id o, .call id o ∈ c'.history ↔
      (id = 0 ∧ o = registerIn "eu" "r1") ∨ (id = 1 ∧ o = registerIn "eu" "r2") := by
    simp [hhistory']
  refine ⟨c, c', ⟨[_], _, _, a₁, hhistory, by simp⟩, ⟨[_], _, _, a₂', hhistory', by simp⟩,
    concurrent_calls_converge (indexed_load _ _ _) h h' (fun id o ho => ?_) ?_ hquiet hquiet'⟩
  · rw [hcalls, hcalls'] at ho
    rcases ho with (⟨_, rfl⟩ | ⟨_, rfl⟩) | ⟨_, rfl⟩ | ⟨_, rfl⟩ <;> exact ⟨_, rfl⟩
  · constructor
    case calls =>
      intro id b
      exact exists_congr fun o => and_congr_left fun _ =>
        (hcalls id o).trans (or_comm.trans (hcalls' id o).symm)
    case answered =>
      intro id o ho
      rcases (hcalls id o).1 ho with ⟨rfl, _⟩ | ⟨rfl, _⟩
      · exact ⟨a₂, by simp [hhistory]⟩
      · exact ⟨a₁, by simp [hhistory]⟩
    case answered' =>
      intro id o ho
      rcases (hcalls' id o).1 ho with ⟨rfl, _⟩ | ⟨rfl, _⟩
      · exact ⟨a₁', by simp [hhistory']⟩
      · exact ⟨a₂', by simp [hhistory']⟩
    case ordered =>
      -- The calls are for different routers.
      intro id id' o o' b b' hne ho ho' hb hb' hkey
      rcases (hcalls id o).1 ho with ⟨rfl, rfl⟩ | ⟨rfl, rfl⟩ <;>
        rcases (hcalls id' o').1 ho' with ⟨rfl, rfl⟩ | ⟨rfl, rfl⟩
      · exact absurd rfl hne
      · obtain rfl := Option.some_inj.1 hb
        obtain rfl := Option.some_inj.1 hb'
        exact absurd hkey (by decide)
      · obtain rfl := Option.some_inj.1 hb
        obtain rfl := Option.some_inj.1 hb'
        exact absurd hkey (by decide)
      · exact absurd rfl hne

/-- The order of updates of shards that share a segment matters: whether the zone loses it for
    a moment. -/
theorem not_alike_updates :
    ¬∀ (calls calls' : List (Call × Env)) (data : AppData), Indexed data → calls.Perm calls' →
      SameAnswers (Call.execAll calls data) (Call.execAll calls' data) := by
  intro h
  let env : Env := ⟨.inOrder _, 1⟩
  let start : AppData := .new Json.verbatim (.inOrder _) 0 none
  let data := Call.execAll [(.updateSegments "s1" "eu" ["g"], env)] start
  have hsame := (h [(.updateSegments "s1" "eu" [], env), (.updateSegments "s2" "eu" ["g"], env)]
    [(.updateSegments "s2" "eu" ["g"], env), (.updateSegments "s1" "eu" [], env)] data
    (indexed_exec _ 1 (.call (.updateSegments "s1" "eu" ["g"])) (indexed_load _ 0 _))
    (.swap ..)).zoneSegments "eu"
  revert hsame
  decide

end Concurrent

end Rzid
