import Confine.Proofs.Sandbox.Audited
import Confine.Proofs.Time.Timestamp
import Confine.Proofs.Tracing.FinalReports
import Confine.Proofs.Tracing.Limited
import Confine.Proofs.Tracing.TracedUnits
import Confine.Proofs.Uuid

/-!
# Results of runs, read back

* `ExecutionResult.Representable` — the counts of a result are of 64 bits, and its points in time can be written;
* `ExecutionResult.ofDoc?_toDoc` — what is read of a result;
* `ExecutionResult.Survives` — a result is read from its text, and so are the reports of the two traces;
* `Sandbox.results_survive` — **the result of every run survives**, but that `null` was returned is not told;
* `Sandbox.not_returned_survives` — that `null` was returned is lost.
-/

namespace Confine

open Json (Doc Exact Faithful Nests Increasing exact_nat exact_nat_iff exact_obj_iff exact_ofList_iff)
open Json.Doc (Slot)

/-! ### Parts of a result -/

theorem Value.exact_toJson (v : Value) : Exact v.toJson := by
  cases v with
  | null => exact .null
  | bool b => exact .bool b
  | int n => exact Faithful.int64.exact n
  | text s => exact .str s
  | object i c => exact .str _
  | exception i e => exact .str _

theorem TaskError.faithful : Faithful TaskError.ofDoc? TaskError.toJson where
  exact e := by simp [toJson, exact_obj_iff, Exact.str]
  read_encode e := by simp [ofDoc?, toJson, Doc.record?_toDoc, Faithful.str.required]

theorem Console.faithful : Faithful Console.ofDoc? Console.toJson where
  exact c := .str _
  read_encode c := by cases c <;> decide

theorem Permission.faithful : Faithful Permission.ofDoc? Permission.toJson where
  exact p := by cases p <;> simp [toJson, exact_obj_iff, Exact.str]
  read_encode p := by cases p <;> rfl

theorem Decision.faithful : Faithful Decision.ofDoc? Decision.toJson where
  exact d := by simp [toJson, exact_obj_iff, Permission.faithful.exact, Exact.bool]
  read_encode d := by simp [ofDoc?, toJson, Doc.record?_toDoc, Permission.faithful.required, Faithful.bool.required]

/-- The time of a line can be written, and its thread has a number of 64 bits. -/
structure OutputLine.Representable (l : OutputLine) : Prop where
  time : l.time.Valid
  thread : l.thread < 2 ^ 64

instance (l : OutputLine) : Decidable l.Representable :=
  decidable_of_iff (l.time.Valid ∧ l.thread < 2 ^ 64) ⟨fun ⟨h₁, h₂⟩ => ⟨h₁, h₂⟩, fun ⟨h₁, h₂⟩ => ⟨h₁, h₂⟩⟩

theorem OutputLine.exact_toJson {l : OutputLine} (h : l.Representable) : Exact l.toJson := by
  simp [toJson, exact_obj_iff, Console.faithful.exact, Exact.str, exact_nat h.thread]

theorem OutputLine.ofDoc?_toDoc {l : OutputLine} (h : l.Representable) : ofDoc? l.toJson.toDoc = some l := by
  simp [ofDoc?, toJson, Doc.record?_toDoc, Slot.required, Console.faithful.read_encode, Faithful.str.read_encode,
    Time.Timestamp.ofText?_text h.time, Doc.count?_toDoc h.thread]

namespace ExecutionResult

/-- The counts of a result are of 64 bits, and its points in time can be written. -/
structure Representable (x : ExecutionResult) : Prop where
  lines : ∀ l ∈ x.outputLines, l.Representable
  truncated : x.truncatedLines < 2 ^ 64
  started : x.started.Valid
  stopped : x.stopped.Valid
  millis : x.executionMillis < 2 ^ 64
  reports : ∀ e ∈ x.tracerResults, Exact e.2

instance (x : ExecutionResult) : Decidable x.Representable :=
  decidable_of_iff ((∀ l ∈ x.outputLines, l.Representable) ∧ x.truncatedLines < 2 ^ 64 ∧ x.started.Valid ∧
      x.stopped.Valid ∧ x.executionMillis < 2 ^ 64 ∧ ∀ e ∈ x.tracerResults, Exact e.2)
    ⟨fun ⟨h₁, h₂, h₃, h₄, h₅, h₆⟩ => ⟨h₁, h₂, h₃, h₄, h₅, h₆⟩, fun ⟨h₁, h₂, h₃, h₄, h₅, h₆⟩ => ⟨h₁, h₂, h₃, h₄, h₅, h₆⟩⟩

/-- What is returned is plain, and reports stand in the order of the names of their tracers. -/
structure Regular (x : ExecutionResult) : Prop where
  returned : ∀ v ∈ x.returned, v.Plain ∧ Exact v
  increasing : Increasing x.tracerResults
  nests : ∀ e ∈ x.tracerResults, Nests 5 e.2

/-- What is read of a result: that `null` was returned is not told, and the objects in reports have their fields in the
order of their names. -/
def readBack (x : ExecutionResult) : ExecutionResult :=
  { x with returned := Json.present x.returned, tracerResults := x.tracerResults.map fun e => (e.1, e.2.sorted) }

variable {x : ExecutionResult}

theorem exact_toJson (h : x.Representable) (hx : x.Regular) : Exact x.toJson := by
  have hreturned : Exact (x.returned.getD .null) := by
    cases hv : x.returned with
    | none => exact .null
    | some v => exact (hx.returned v hv).2
  have hlines : Exact (.ofList OutputLine.toJson x.outputLines) :=
    exact_ofList_iff.2 fun l hl => OutputLine.exact_toJson (h.lines l hl)
  have hlog : Exact (.ofList Decision.toJson x.permissionLog) := Decision.faithful.list.exact _
  simp [toJson, exact_obj_iff, Exact.str, Exact.bool, Json.exact_ofOption Faithful.str,
    Json.exact_ofOption TaskError.faithful, hreturned, hlines, hlog, exact_nat h.truncated, exact_nat h.millis]
  exact fun id v he => h.reports (id, v) he

theorem time?_toDoc {t : Time.Timestamp} (h : t.Valid) : time? (Json.str t.text).toDoc = some t := by
  rw [time?, Faithful.str.read_encode, Option.bind_some, Time.Timestamp.ofText?_text h]

theorem taskId?_toDoc (id : Uuid) : (Json.str id.text).toDoc.str?.bind Uuid.ofText? = some id := by
  rw [Faithful.str.read_encode, Option.bind_some, Uuid.ofText?_text]

theorem tracerResultsOfDoc?_toDoc {reports : List (String × Json)} (hincreasing : Increasing reports)
    (hnests : ∀ e ∈ reports, Nests 5 e.2) :
    tracerResultsOfDoc? (Json.obj reports).toDoc = some (reports.map fun e => (e.1, e.2.sorted)) := by
  have hread := Doc.toJson?_toDoc ((Nests.obj hnests).mono (show 5 + 1 ≤ Doc.maxDepth - 1 by decide))
  rw [Json.sorted, Json.sortedFields_of_increasing hincreasing] at hread
  simp only [Json.toDoc] at hread ⊢
  simp [tracerResultsOfDoc?, Doc.anyWithin?, hread]

/-- **What is read of a result** is all of it, but for `null`. -/
theorem ofDoc?_toDoc (h : x.Representable) (hx : x.Regular) : ofDoc? x.toJson.toDoc = some x.readBack := by
  have hreason : (Slot.given (Json.ofOption .str x.killReason).toDoc).optional Doc.str? = some x.killReason :=
    Faithful.str.optional str_toDoc_ne_null _
  have herror : (Slot.given (Json.ofOption TaskError.toJson x.error).toDoc).optional TaskError.ofDoc? = some x.error :=
    TaskError.faithful.optional (fun e heq => by cases heq) _
  have hreturned := Doc.optional_anyWithin? (fun v hv => (hx.returned v hv).1) 1
  have hlines : (Json.ofList OutputLine.toJson x.outputLines).toDoc.list? OutputLine.ofDoc? = some x.outputLines :=
    Doc.list?_toDoc fun l hl => OutputLine.ofDoc?_toDoc (h.lines l hl)
  have hrecord : x.toJson.toDoc.record? fieldNames = some [.given (Json.str x.taskId.text).toDoc,
      .given (Json.bool x.completed).toDoc, .given (Json.bool x.timedOut).toDoc, .given (Json.bool x.failed).toDoc,
      .given (Json.bool x.killed).toDoc, .given (Json.ofOption .str x.killReason).toDoc,
      .given (Json.ofOption TaskError.toJson x.error).toDoc, .given (Json.bool x.permissionDenied).toDoc,
      .given (x.returned.getD .null).toDoc, .given (Json.ofList OutputLine.toJson x.outputLines).toDoc,
      .given (Json.nat x.truncatedLines).toDoc, .given (Json.ofList Decision.toJson x.permissionLog).toDoc,
      .given (Json.str x.started.text).toDoc, .given (Json.str x.stopped.text).toDoc,
      .given (Json.nat x.executionMillis).toDoc, .given (Json.obj x.tracerResults).toDoc] :=
    Doc.record?_toDoc rfl (by decide)
  rw [ofDoc?, hrecord]
  refine Option.bind_eq_some_iff.2 ⟨_, rfl, ?_⟩
  dsimp only
  -- one field after another, in the order in which they are read
  refine Option.bind_eq_some_iff.2 ⟨_, Slot.required_given (taskId?_toDoc _), ?_⟩
  refine Option.bind_eq_some_iff.2 ⟨_, Faithful.bool.required _, ?_⟩
  refine Option.bind_eq_some_iff.2 ⟨_, Faithful.bool.required _, ?_⟩
  refine Option.bind_eq_some_iff.2 ⟨_, Faithful.bool.required _, ?_⟩
  refine Option.bind_eq_some_iff.2 ⟨_, Faithful.bool.required _, ?_⟩
  refine Option.bind_eq_some_iff.2 ⟨_, hreason, ?_⟩
  refine Option.bind_eq_some_iff.2 ⟨_, herror, ?_⟩
  refine Option.bind_eq_some_iff.2 ⟨_, Faithful.bool.required _, ?_⟩
  refine Option.bind_eq_some_iff.2 ⟨_, hreturned, ?_⟩
  refine Option.bind_eq_some_iff.2 ⟨_, Slot.required_given hlines, ?_⟩
  refine Option.bind_eq_some_iff.2 ⟨_, Slot.required_given (Doc.count?_toDoc h.truncated), ?_⟩
  refine Option.bind_eq_some_iff.2 ⟨_, Decision.faithful.list.required _, ?_⟩
  refine Option.bind_eq_some_iff.2 ⟨_, Slot.required_given (time?_toDoc h.started), ?_⟩
  refine Option.bind_eq_some_iff.2 ⟨_, Slot.required_given (time?_toDoc h.stopped), ?_⟩
  refine Option.bind_eq_some_iff.2 ⟨_, Slot.required_given (Doc.count?_toDoc h.millis), ?_⟩
  exact Option.bind_eq_some_iff.2 ⟨_, Slot.required_given (tracerResultsOfDoc?_toDoc hx.increasing hx.nests), rfl⟩

/-- **A result survives its text**, where its tracers have recorded `rs`. -/
structure Survives (x : ExecutionResult) (rs : Recordings) : Prop where
  /-- the result is read from its text, in both layouts -/
  compact : (Doc.ofText? x.toJson.compact).bind ofDoc? = some x.readBack
  indented : (Doc.ofText? x.toJson.indented).bind ofDoc? = some x.readBack
  /-- what was returned is read, unless it was `null` -/
  returned : x.readBack.returned = x.returned ↔ x.returned ≠ some .null
  /-- the reports of tracers are read, but for the order of fields in their objects -/
  reports : List.Forall₂ (fun e f => f.1 = e.1 ∧ e.2.Same f.2) x.tracerResults x.readBack.tracerResults
  /-- the line trace is what it was in the end, both before and behind the text -/
  lineTrace : x.lineTrace? = rs.lineTrace?.map (·.report) ∧ x.readBack.lineTrace? = x.lineTrace?
  /-- so is the method trace, but that a receiver was `null` is told neither before nor behind the text -/
  methodTrace : x.methodTrace? = rs.methodTrace?.map (·.report.readBack) ∧ x.readBack.methodTrace? = x.methodTrace?

theorem report_readBack (x : ExecutionResult) {α β : Type} {read : Doc → Option β} {encode : α → Json} {g : α → β}
    {id : String} {report : Option α} (hreport : x.tracerResults.lookup id = report.map encode)
    (hread : ∀ a ∈ report, Json.ReadsAs read encode a (g a)) :
    ((x.tracerResult? id).bind fun v => read v.toDoc) = report.map g ∧
      ((x.readBack.tracerResult? id).bind fun v => read v.toDoc) = report.map g := by
  have hsorted : x.readBack.tracerResults.lookup id = (report.map encode).map Json.sorted :=
    hreport ▸ Json.lookup_map x.tracerResults Json.sorted id
  rw [tracerResult?, tracerResult?, hreport, hsorted]
  cases report with
  | none => exact ⟨rfl, rfl⟩
  | some a => exact ⟨(hread a rfl).rearranged .id, (hread a rfl).rearranged .sorted⟩

theorem Representable.exact_of_lookup (h : x.Representable) {id : String} {v : Json}
    (hv : x.tracerResults.lookup id = some v) : Exact v := by
  obtain ⟨l, l', heq, -⟩ := List.lookup_eq_some_iff.1 hv
  exact h.reports (id, v) (heq ▸ by simp)

section Recorded

variable {ids : List String} {rs : Recordings} (h : x.Representable) (hids : ids.Nodup) (hrs : rs.Steady ids)
  (hresults : x.tracerResults = rs.results)

include h hids hrs hresults

theorem lineTrace_readBack :
    x.lineTrace? = rs.lineTrace?.map (·.report) ∧ x.readBack.lineTrace? = x.lineTrace? := by
  have hlookup : x.tracerResults.lookup LineTrace.id = (rs.lineTrace?.map (·.report)).map LineTrace.Result.toJson := by
    rw [hresults, Recordings.lookup_lineTrace (hrs.ids ▸ hids), Option.map_map]
    rfl
  obtain ⟨hbefore, hbehind⟩ := x.report_readBack (g := fun r => r) hlookup fun r hr =>
    LineTrace.Result.readsAs (h.exact_of_lookup (hlookup.trans (congrArg (Option.map _) hr)))
  rw [Option.map_id'] at hbefore hbehind
  exact ⟨hbefore, hbehind.trans hbefore.symm⟩

theorem methodTrace_readBack :
    x.methodTrace? = rs.methodTrace?.map (·.report.readBack) ∧ x.readBack.methodTrace? = x.methodTrace? := by
  have hlookup : x.tracerResults.lookup MethodTrace.id =
      (rs.methodTrace?.map (·.report)).map MethodTrace.Result.toJson := by
    rw [hresults, Recordings.lookup_methodTrace (hrs.ids ▸ hids), Option.map_map]
    rfl
  obtain ⟨hbefore, hbehind⟩ := x.report_readBack hlookup fun r hr => by
    obtain ⟨q, hq, rfl⟩ := Option.map_eq_some_iff.1 hr
    exact MethodTrace.Result.readsAs (hrs.plain_methodTrace hq)
      (h.exact_of_lookup (hlookup.trans (congrArg (Option.map _) hr)))
  rw [Option.map_map] at hbefore hbehind
  exact ⟨hbefore, hbehind.trans hbefore.symm⟩

/-- **A regular result survives**, if it has the reports of recordings. -/
theorem survives_of_regular (hx : x.Regular) : x.Survives rs where
  compact := by rw [Doc.ofText?_compact (exact_toJson h hx), Option.bind_some, ofDoc?_toDoc h hx]
  indented := by rw [(Doc.ofText?_indented (exact_toJson h hx)).1, Option.bind_some, ofDoc?_toDoc h hx]
  returned := by
    rw [readBack]
    cases x.returned with
    | none => simp [Json.present]
    | some v => cases v <;> simp [Json.present]
  reports := by
    rw [readBack]
    generalize x.tracerResults = l
    induction l with
    | nil => exact .nil
    | cons e l ih => exact .cons ⟨rfl, Json.same_sorted e.2⟩ ih
  lineTrace := lineTrace_readBack h hids hrs hresults
  methodTrace := methodTrace_readBack h hids hrs hresults

end Recorded

end ExecutionResult

namespace Sandbox

/-! ### Whole runs -/

/-- **What is concluded of steady recordings survives.** -/
theorem survives_of_conclude {r : RegistryId} {P : Prepared} {rec : Record} {e : RunEnd} {ids : List String}
    (hids : ids.Nodup) (he : e.shared.recordings.Steady ids) {x : ExecutionResult}
    (h : (conclude r P rec e).outcome = .ok x) (hx : x.Representable) : x.Survives e.shared.recordings := by
  obtain ⟨⟨v, hreturned⟩, hresults⟩ := exists_of_conclude h
  have hnodup : (e.shared.recordings.entries.map Recording.id).Nodup := he.ids ▸ hids
  refine ExecutionResult.survives_of_regular hx hids he hresults ⟨fun w hw => ?_, ?_, fun f hf => ?_⟩
  · obtain ⟨v, -, rfl⟩ := Option.map_eq_some_iff.1 (hreturned.symm.trans hw)
    exact ⟨v.plain_toJson, v.exact_toJson⟩
  · exact hresults ▸ Recordings.increasing_results hnodup
  · obtain ⟨q, hq, rfl⟩ := List.mem_map.1 ((Recordings.perm_results hnodup).mem_iff.1 (hresults ▸ hf))
    exact Recording.nests_report (he.plain q hq)

/-- **The results of all runs survive their text.** -/
structure Prepared.ResultsSurvive (r : RegistryId) (P : Prepared) : Prop where
  /-- however the threads of a run are scheduled, and wherever they are when it is concluded -/
  scheduled : ∀ {work : List WorkStep} {acts : List Act} {c : Scene}, P.task.Schedules P.state work acts c →
    ∀ (rec : Record) (e : RunEnd), e.shared = c.shared → ∀ x, (conclude r P rec e).outcome = .ok x →
      x.Representable → x.Survives c.shared.recordings
  /-- on any host -/
  executed : ∀ {σ : Type} (host : Host (StateM σ)) (work : List WorkStep) (limit : Nat) (w : σ),
    let e := (RunState.run host P.task P.state work limit w).1
    ∀ (rec : Record) x, (conclude r P rec e).outcome = .ok x → x.Representable → x.Survives e.shared.recordings

theorem Prepares.resultsSurvive {sb : Sandbox} {r : RegistryId} {u : LoadingUnit} {sets : List LoadingUnit.ClassSets}
    {a : ExecutionArguments} {P : Prepared} (h : Prepares sb r u sets a P)
    (hids : (u.own.instrumentation.map Instrumentation.id).Nodup) : P.ResultsSurvive r where
  scheduled := by
    intro work acts c hacts rec e he x hx hrepresentable
    have hsteady := hacts.steady (Recordings.steady_of_start h.started)
    rw [← he] at hsteady ⊢
    exact survives_of_conclude hids hsteady hx hrepresentable
  executed := by
    intro σ host work limit w e rec x hx hrepresentable
    obtain ⟨acts, c, hacts, hshared, -⟩ := h.scheduled host work limit w
    have hsteady := hacts.steady (Recordings.steady_of_start h.started)
    rw [hshared] at hsteady
    exact survives_of_conclude hids hsteady hx hrepresentable

/-- **Results survive serialization.** Take a unit with any tracers that can be together, and any run in it. What is
read from the text of its result is that result, with the reports that the tracers have made in the end; only where
`null` was returned, the result that is read does not tell so, and neither do the steps of the method trace where the
receiver was `null`. -/
theorem results_survive {tracers : List Tracer} {roster : Roster Tracer} (hr : Roster.empty.addAll tracers = .ok roster)
    {p : LoadingUnit.Plan} {id : UnitId} {u : LoadingUnit}
    (hu : LoadingUnit.build { p with tracers := roster } id = .ok u) {sb : Sandbox} {r : RegistryId}
    {sets : List LoadingUnit.ClassSets} {a : ExecutionArguments} {P : Prepared} (hP : sb.prepare r u sets a = .ok P) :
    P.ResultsSurvive r := by
  have hids : (u.own.instrumentation.map Instrumentation.id).Nodup := by
    rw [LoadingUnit.ids_of_build hu]
    exact Roster.nodup_addAll (r := .empty) List.nodup_nil hr
  exact (prepare_eq_ok_iff.1 hP).resultsSurvive hids

/-! ### A sample that returns null -/

namespace Returning

/-- A program that enters three methods, passes a line and returns null, with both traces. -/
def unit : LoadingUnit := OfClass.unit OfClass.calling (some .default) (some .default)

theorem build_unit : LoadingUnit.build
    { OfClass.plan OfClass.calling with tracers := .traces (some .default) (some .default) } ⟨1⟩ = .ok unit :=
  OfClass.build_plan rfl (by decide)

def run (P : Prepared) : RunEnd :=
  (RunState.run World.host P.task P.state EntryPoint.default.work 1000000000 (keyedWorld .empty "1")).1

def outcome (P : Prepared) : Except SandboxFault ExecutionResult :=
  (conclude ⟨0⟩ P ⟨⟨1, 2⟩, .ofNanos 0, .ofNanos 5000000, 5⟩ (run P)).outcome

theorem exists_outcome : ∃ P x, empty.prepare ⟨0⟩ unit [] .default = .ok P ∧ outcome P = .ok x ∧ x.Representable ∧
    x.returned = some .null ∧ x.tracerResults.map (·.1) = [LineTrace.id, MethodTrace.id] := by
  obtain ⟨P, hP⟩ : ∃ P, empty.prepare ⟨0⟩ unit [] .default = .ok P := ⟨_, rfl⟩
  have hcheck : ((outcome P).toOption.any fun x => decide x.Representable && x.returned.isSome &&
      (Json.present x.returned).isNone && decide (x.tracerResults.map (·.1) = [LineTrace.id, MethodTrace.id])) = true := by
    cases hP
    decide +kernel
  cases hx : outcome P with
  | error fault =>
    rw [hx] at hcheck
    cases hcheck
  | ok x =>
    simp only [hx, Except.toOption, Option.any_some, Bool.and_eq_true, decide_eq_true_eq, Option.isSome_iff_exists,
      Option.isNone_iff_eq_none] at hcheck
    obtain ⟨⟨⟨hrepresentable, v, hv⟩, hnull⟩, hids⟩ := hcheck
    rw [hv, Json.present_some_eq_none_iff] at hnull
    exact ⟨P, x, hP, hx, hrepresentable, hnull ▸ hv, hids⟩

end Returning

/-- The result of the sample survives, with both reports. -/
theorem results_survive_returning : ∃ P x, empty.prepare ⟨0⟩ Returning.unit [] .default = .ok P ∧
    Returning.outcome P = .ok x ∧ x.Representable ∧ x.Survives (Returning.run P).shared.recordings ∧
    x.tracerResults.map (·.1) = [LineTrace.id, MethodTrace.id] := by
  obtain ⟨P, x, hP, hx, hrepresentable, -, hids⟩ := Returning.exists_outcome
  have hsurvive := @results_survive [.lineTrace .default, .methodTrace .default] _ rfl _ _ _ Returning.build_unit _ ⟨0⟩
    _ _ _ hP
  exact ⟨P, x, hP, hx, hrepresentable, hsurvive.executed _ _ _ _ _ x hx hrepresentable, hids⟩

/-- **That null was returned is lost.** -/
theorem not_returned_survives : ¬ ∀ (u : LoadingUnit) (P : Prepared) (rec : Record) (work : List WorkStep) (limit : Nat)
    (w : World) (x : ExecutionResult), empty.prepare ⟨0⟩ u [] .default = .ok P →
      (conclude ⟨0⟩ P rec (RunState.run World.host P.task P.state work limit w).1).outcome = .ok x → x.Representable →
        ((Doc.ofText? x.toJson.compact).bind ExecutionResult.ofDoc?).map (·.returned) = some x.returned := by
  intro h
  obtain ⟨P, x, hP, hx, hrepresentable, hreturned, -⟩ := Returning.exists_outcome
  have hread := h Returning.unit P _ _ _ _ x hP hx hrepresentable
  have hsurvive := ((prepare_eq_ok_iff.1 hP).resultsSurvive (by decide)).executed _ _ _ _ _ x hx hrepresentable
  rw [hsurvive.compact, Option.map_some, Option.some.injEq] at hread
  exact hsurvive.returned.1 hread hreturned

end Sandbox

end Confine
