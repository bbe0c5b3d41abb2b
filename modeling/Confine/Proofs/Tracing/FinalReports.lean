import Confine.Proofs.Sandbox.HookActs
import Confine.Proofs.Tracing.Followed
import Confine.Proofs.Tracing.Reread

/-!
# What a run reports in the end

* `Recordings.Steady` — tracers keep their names, and the values that they have recorded are plain;
* `Task.Schedules.steady` — **that holds of a whole run**;
* `Recordings.increasing_results` — reports stand in the order of the names of their tracers;
* `Recordings.lookup_results` — **each tracer has its own report there**, if their names are distinct.
-/

namespace Confine

open Json (Nests Increasing insertField)

/-! ### Plain recordings -/

theorem Value.plain_toJson (v : Value) : v.toJson.Plain := by cases v <;> trivial

namespace MethodTrace.Recording

/-- A step that a call reports holds plain values. -/
theorem plain_of_enter? {i : Instrumentation} {call : HookCall} {s : Step} (h : enter? i call = some s) : s.Plain := by
  have harguments (names : List String) (values : List Value) :
      ∀ a ∈ names.zipWith (fun name v => Argument.mk name v.toJson) values, a.value.Plain := by
    intro a ha
    obtain ⟨k, hk, rfl⟩ := List.mem_iff_getElem.1 ha
    simpa using Value.plain_toJson _
  unfold enter? at h
  split at h
  · cases h
  split at h
  · next number values _ =>
    cases hnumber : number.toInt with
    | negSucc n =>
      rw [hnumber] at h
      cases h
    | ofNat n =>
      rw [hnumber] at h
      obtain ⟨_, ⟨⟩, h⟩ := Option.bind_eq_some_iff.1 h
      obtain ⟨site, -, h⟩ := Option.bind_eq_some_iff.1 h
      dsimp only at h
      split at h
      · obtain rfl := Option.some.inj h
        refine ⟨fun v hv => ?_, harguments _ _⟩
        exact Option.some.inj hv ▸ Value.plain_toJson _
      · obtain rfl := Option.some.inj h
        exact ⟨fun v hv => (by cases hv), harguments _ _⟩
  · cases h

theorem plain_record {r : Recording} (h : r.report.Plain) {s : Step} (hs : s.Plain) : (r.record s).report.Plain := by
  unfold record
  split
  · have hsteps : report { r with steps := r.steps.push s } =
        ⟨r.instrumentation.arguments, r.report.steps ++ [s]⟩ := by
      simp [report]
    rw [hsteps]
    intro t ht
    rcases List.mem_append.1 ht with ht | ht
    · exact h t ht
    · exact List.mem_singleton.1 ht ▸ hs
  · exact h

end MethodTrace.Recording

namespace Recording

def Plain : Recording → Prop
  | methodTrace r => r.report.Plain
  | _ => True

variable {r : Recording}

theorem Plain.onHook (h : r.Plain) (call : HookCall) (thread : Nat) : (r.onHook call thread).2.Plain := by
  cases r with
  | lineTrace r =>
    unfold Recording.onHook
    dsimp only
    split <;> trivial
  | methodTrace r =>
    show ((r.onHook call).report).Plain
    unfold MethodTrace.Recording.onHook
    split
    · next s hs => exact MethodTrace.Recording.plain_record h (MethodTrace.Recording.plain_of_enter? hs)
    · exact h
  | probe r => trivial

theorem Plain.tellLine (h : r.Plain) (e : LineEvent) : (r.tellLine e).Plain := by
  cases r with
  | methodTrace r => exact MethodTrace.Recording.plain_record h trivial
  | _ => exact h

theorem Plain.subscribe (h : r.Plain) (s : LineTrace.Subscriber) : (r.subscribe s).Plain := by
  cases r <;> exact h

theorem nests_report (h : r.Plain) : Nests 5 r.report := by
  cases r with
  | lineTrace r => exact r.report.nests.mono (by decide)
  | methodTrace r => exact MethodTrace.Result.nests h
  | probe r =>
    have hcalls : ∀ c ∈ r.calls.toList, Nests 3 c.toJson := fun c _ => by
      simp [Probe.Call.toJson, Nests.obj_iff, Nests.ofList_iff, Nests.plain, Value.plain_toJson]
    simpa [report, Probe.Recording.report, Nests.obj_iff, Nests.ofList_iff, Nests.plain] using hcalls

end Recording

/-! ### Whole runs -/

namespace Recordings

/-- The tracers have these names, and the values that they have recorded are plain. -/
structure Steady (ids : List String) (rs : Recordings) : Prop where
  ids : rs.entries.map Recording.id = ids
  plain : ∀ r ∈ rs.entries, r.Plain

variable {ids : List String} {rs : Recordings}

theorem Steady.map (h : rs.Steady ids) {f : Recording → Recording} (hid : ∀ r, (f r).id = r.id)
    (hplain : ∀ r : Recording, r.Plain → (f r).Plain) (collected : List (String × LineEvent)) :
    Steady ids ⟨rs.entries.map f, collected⟩ where
  ids := by
    rw [← h.ids, List.map_map]
    exact List.map_congr_left fun r _ => hid r
  plain := List.forall_mem_map.2 fun r hr => hplain r (h.plain r hr)

theorem Steady.tell (h : rs.Steady ids) (e : LineEvent) (s : LineTrace.Subscriber) : (rs.tell e s).Steady ids := by
  cases s with
  | methodTrace => exact h.map (fun r => r.id_tellLine e) (fun r hr => hr.tellLine e) _
  | collector name => exact ⟨h.ids, h.plain⟩

theorem Steady.onHook (h : rs.Steady ids) (id : String) (call : HookCall) (thread : Nat) :
    (rs.onHook id call thread).2.Steady ids := by
  have hcalled : Steady ids ⟨(callFirst id call thread [] rs.entries).2, rs.collected⟩ := by
    rcases cases_of_id id rs.entries with hnone | ⟨front, r, rest, heq, hr, hfront⟩
    · have hsame := callFirst_append hnone call thread [] []
      rw [List.append_nil] at hsame
      rw [hsame]
      exact ⟨by simpa [callFirst] using h.ids, by simpa [callFirst] using h.plain⟩
    · have hids := h.ids
      have hplain := h.plain
      rw [heq] at hids hplain
      rw [heq, callFirst_append hfront, callFirst_cons hr]
      simp only [List.forall_mem_append, List.forall_mem_cons] at hplain
      obtain ⟨hplainFront, hplainCalled, hplainRest⟩ := hplain
      refine ⟨by simpa using hids, ?_⟩
      simpa using List.forall_mem_append.2 ⟨hplainFront,
        List.forall_mem_cons.2 ⟨hplainCalled.onHook call thread, hplainRest⟩⟩
  obtain ⟨entries, collected⟩ := rs
  unfold Recordings.onHook
  dsimp only at hcalled ⊢
  generalize callFirst id call thread [] entries = q at hcalled ⊢
  have told (e : LineEvent) (subscribers : List LineTrace.Subscriber) :
      ∀ {rs : Recordings}, rs.Steady ids → (subscribers.foldl (Recordings.tell e) rs).Steady ids := by
    induction subscribers with
    | nil => exact fun h => h
    | cons s subscribers ih => exact fun h => ih (h.tell e s)
  split
  · exact told _ _ hcalled
  · exact hcalled

theorem plain_of_start {n : Nat} {i : Instrumentation} {r : Recording} (h : Recording.start n i = .ok r) : r.Plain := by
  cases i with
  | lineTrace i =>
    cases h
    trivial
  | methodTrace i =>
    simp only [Recording.start, MethodTrace.Recording.start] at h
    split at h
    · cases h
    · cases h
      intro s hs
      cases hs
  | probe a active =>
    cases r with
    | methodTrace r => exact absurd (id_of_start h) (show MethodTrace.id ≠ Probe.id by decide)
    | _ => trivial

/-- Tracers start with their names and with nothing recorded. -/
theorem steady_of_start {n : Nat} {is : List Instrumentation} (h : start n is = .ok rs) :
    rs.Steady (is.map Instrumentation.id) := by
  obtain ⟨entries, hentries, hrs⟩ := exists_of_start h
  have hstarts := forall₂_of_mapM_start hentries
  have hids : entries.map Recording.id = is.map Instrumentation.id := by
    clear * - hstarts
    induction hstarts with
    | nil => rfl
    | cons hr _ ih => simp [id_of_start hr, ih]
  have hplain : ∀ r ∈ entries, r.Plain := by
    clear * - hstarts
    induction hstarts with
    | nil => simp
    | cons hr _ ih => exact List.forall_mem_cons.2 ⟨plain_of_start hr, ih⟩
  have hsteady : Steady (is.map Instrumentation.id) ⟨entries, []⟩ := ⟨hids, hplain⟩
  rcases hrs with rfl | rfl
  · exact hsteady
  · exact hsteady.map (fun r => r.id_subscribe _) (fun r hr => hr.subscribe _) _

end Recordings

/-- **Tracers keep their names in a run, and record plain values only.** -/
theorem Task.Schedules.steady {t : Task} {s₀ : TaskState} {work : List WorkStep} {acts : List Act} {c : Scene}
    {ids : List String} (hstart : s₀.recordings.Steady ids) (h : t.Schedules s₀ work acts c) :
    c.shared.recordings.Steady ids := by
  refine Task.Schedules.recorded (P := fun _ rs => rs.Steady ids) hstart ?_ ?_ ?_ ?_ h
  · exact fun _ _ e hrs => hrs.onHook e.tracer e.call e.thread
  · intro _ rs hrs
    refine hrs.map (fun r => ?_) (fun r hr => ?_) _ <;> cases r <;> first | rfl | exact hr
  · exact fun _ _ x hrs => hrs.map (fun r => r.id_subscribe x) (fun r hr => hr.subscribe x) _
  · exact fun _ _ hrs => ⟨hrs.ids, hrs.plain⟩

/-! ### Results -/

namespace Recordings

variable {rs : Recordings}

theorem results_eq (rs : Recordings) :
    rs.results = (rs.entries.map fun r => (r.id, r.report)).foldl (fun l e => insertField e.1 e.2 l) [] := by
  rw [List.foldl_map]
  rfl

theorem results_placed (h : (rs.entries.map Recording.id).Nodup) :
    Increasing rs.results ∧ rs.results.Perm (rs.entries.map fun r => (r.id, r.report)) := by
  have hplaced := @Json.foldl_insertField _ (rs.entries.map fun r => (r.id, r.report)) .nil
    (by simpa [Function.comp_def] using h)
  rwa [List.append_nil, ← results_eq] at hplaced

theorem increasing_results (h : (rs.entries.map Recording.id).Nodup) : Increasing rs.results :=
  (results_placed h).1

theorem perm_results (h : (rs.entries.map Recording.id).Nodup) :
    rs.results.Perm (rs.entries.map fun r => (r.id, r.report)) := (results_placed h).2

/-- **Each tracer has its own report.** Those of one kind are told by `f`. -/
theorem lookup_results {α : Type} {f : Recording → Option α} {id : String} {report : α → Json}
    (hsome : ∀ r a, f r = some a → r.id = id ∧ r.report = report a) (hnone : ∀ r, f r = Option.none → r.id ≠ id)
    (h : (rs.entries.map Recording.id).Nodup) : rs.results.lookup id = (rs.entries.findSome? f).map report := by
  have hperm := perm_results h
  cases hfind : rs.entries.findSome? f with
  | none =>
    refine List.lookup_eq_none_iff.2 fun e he => bne_iff_ne.2 fun heq => ?_
    obtain ⟨r, hr, rfl⟩ := List.mem_map.1 (hperm.mem_iff.1 he)
    exact hnone r (List.findSome?_eq_none_iff.1 hfind r hr) heq.symm
  | some a =>
    obtain ⟨r, hr, ha⟩ := List.exists_of_findSome?_eq_some hfind
    obtain ⟨rfl, hreport⟩ := hsome r a ha
    have hmem : (r.id, r.report) ∈ rs.results := hperm.mem_iff.2 (List.mem_map.2 ⟨r, hr, rfl⟩)
    rw [(increasing_results h).lookup_eq_some hmem, Option.map_some, hreport]

theorem lookup_lineTrace (h : (rs.entries.map Recording.id).Nodup) :
    rs.results.lookup LineTrace.id = rs.lineTrace?.map (·.report.toJson) := by
  refine lookup_results (f := Recording.asLine?) (fun r a ha => ?_) (fun r hr => ?_) h
  · cases r <;> cases ha
    exact ⟨rfl, rfl⟩
  · cases r with
    | lineTrace r => cases hr
    | methodTrace r => exact (by decide : MethodTrace.id ≠ LineTrace.id)
    | probe r => exact (by decide : Probe.id ≠ LineTrace.id)

theorem lookup_methodTrace (h : (rs.entries.map Recording.id).Nodup) :
    rs.results.lookup MethodTrace.id = rs.methodTrace?.map (·.report.toJson) := by
  refine lookup_results (f := Recording.asMethod?) (fun r a ha => ?_) (fun r hr => ?_) h
  · cases r <;> cases ha
    exact ⟨rfl, rfl⟩
  · cases r with
    | lineTrace r => exact (by decide : LineTrace.id ≠ MethodTrace.id)
    | methodTrace r => cases hr
    | probe r => exact (by decide : Probe.id ≠ MethodTrace.id)

theorem Steady.plain_methodTrace {ids : List String} (h : rs.Steady ids) {r : MethodTrace.Recording}
    (hr : rs.methodTrace? = some r) : r.report.Plain := by
  obtain ⟨p, hp, hpr⟩ := List.exists_of_findSome?_eq_some hr
  cases p <;> cases hpr
  exact h.plain _ hp

end Recordings

end Confine
