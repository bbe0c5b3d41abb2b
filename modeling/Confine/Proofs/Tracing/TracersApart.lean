import Confine.Proofs.Sandbox.Stopped
import Confine.Proofs.Tracing.TracedEntries
import Confine.Proofs.Tracing.TracerPairs

/-!
# Tracers do not disturb each other

Three runs of one program are compared: with the line trace, with the method trace, and with both.

* `ReportedApart` — what they report, and `Recordings.reportedApart_after` — they do if they get the same calls;
* `Sandbox.Prepared.Three.reportedApart` — so they do without a limit of lines;
* `Sandbox.Prepared.Limits.of_ended` — a run that does not end at its limit of lines reports as the one without a limit;
* `Sandbox.tracers_apart` — **so the tracers do not disturb each other**, unless a method is hollow;
* `Sandbox.not_entries_apart` — then the line trace can add to the entries of the method trace.
-/

namespace Confine

open LineTrace (Limit)

/-! ### What is reported -/

/-- **What the line trace reports, what the method trace reports, and what both do together.** The line trace reports the
same in both cases. Of the steps that the method trace keeps beside the line trace, the entries are the first of those
that it keeps alone, and all of them if there is room for more, provided that no method is hollow. -/
def ReportedApart (R : LineTrace.Result) (a : MethodTrace.Arguments) (noHollow : Prop)
    (lines methods both : List (String × Json)) : Prop :=
  ∃ enters steps : List MethodTrace.Step,
    lines = [(LineTrace.id, R.toJson)] ∧
      methods = [(MethodTrace.id, (MethodTrace.Result.mk a enters).toJson)] ∧
      both = [(LineTrace.id, R.toJson), (MethodTrace.id, (MethodTrace.Result.mk a steps).toJson)] ∧
      (noHollow → steps.filter (·.isEnter) <+: enters ∧
        (steps.length < a.recordedStepLimit → steps.filter (·.isEnter) = enters))

theorem filter_take_prefix {α : Type} (p : α → Bool) (l : List α) (n : Nat) :
    (l.take n).filter p <+: (l.filter p).take n ∧
      ((l.take n).length < n → (l.take n).filter p = (l.filter p).take n) := by
  constructor
  · refine List.prefix_take_iff.2 ⟨(List.take_prefix n l).filter p, ?_⟩
    exact (List.length_filter_le _ _).trans (List.length_take_le _ _)
  · intro hlength
    have hshort : l.length < n := by
      rw [List.length_take] at hlength
      omega
    rw [List.take_of_length_le hshort.le, List.take_of_length_le ((List.length_filter_le _ _).trans hshort.le)]

namespace Recordings

open LineTrace.Recording (afterCalls)
open MethodTrace.Recording (enterOf? allStepsOf)

@[simp] theorem traced_traces (r : LineTrace.Recording) (method : Option MethodTrace.Recording) :
    (traces (some r) method).traced = r.report := rfl

/-- **Calls that are the same for each tracer are reported the same.** -/
theorem reportedApart_after {b : LineTrace.Arguments} {i i' : MethodTrace.Instrumentation}
    {subscribers subscribers' : List LineTrace.Subscriber}
    (hline : Linked (some ⟨b, [], subscribers⟩) Option.none)
    (hboth : Linked (some ⟨b, [], subscribers'⟩) (some ⟨i', #[]⟩))
    (harguments : i'.arguments = i.arguments) {lines methods both : List (String × HookCall)}
    (hlines : lineCalls both = lineCalls lines) {noHollow : Prop}
    (henters : noHollow → both.filterMap (enterOf? i') = methods.filterMap (enterOf? i)) :
    ((traces (some ⟨b, [], subscribers'⟩) (some ⟨i', #[]⟩)).after both).traced =
        ((traces (some ⟨b, [], subscribers⟩) Option.none).after lines).traced ∧
      ReportedApart ((traces (some ⟨b, [], subscribers⟩) Option.none).after lines).traced i.arguments noHollow
        ((traces (some ⟨b, [], subscribers⟩) Option.none).after lines).results
        ((traces Option.none (some ⟨i, #[]⟩)).after methods).results
        ((traces (some ⟨b, [], subscribers'⟩) (some ⟨i', #[]⟩)).after both).results := by
  have hreport : ((LineTrace.Recording.mk b [] subscribers').afterCalls both).report =
      ((LineTrace.Recording.mk b [] subscribers).afterCalls lines).report := by
    rw [← LineTrace.Recording.afterCalls_filter, ← LineTrace.Recording.afterCalls_filter _ lines]
    exact (congrArg (fun calls => LineTrace.Recording.report (afterCalls _ calls)) hlines).trans
      (LineTrace.Recording.report_afterCalls_subscribers b [] subscribers' subscribers _)
  have hentries := MethodTrace.Recording.filter_allStepsOf i' (some ⟨b, [], subscribers'⟩) both
  rw [(entersReported_after i methods).results, after_traces hline, after_traces hboth, results_traces, results_traces]
  refine ⟨hreport, (methods.filterMap (enterOf? i)).take i.arguments.recordedStepLimit,
    (allStepsOf i' (some ⟨b, [], subscribers'⟩) both).take i.arguments.recordedStepLimit, rfl, rfl, ?_,
    fun hnone => ?_⟩
  · simp [hreport, MethodTrace.Recording.report_recordAll, harguments]
  · rw [← henters hnone, ← hentries]
    exact filter_take_prefix _ _ _

end Recordings

/-! ### Building -/

namespace LoadingUnit

theorem exists_defineAll_plain {origin : Origin} {l : List (String × ByteArray)} {cs : List ClassFile}
    (h : List.Forall₂ Reads l cs) (done : List (String × DefinedClass)) :
    ∃ classes, defineAll origin [] done l = .ok (classes, []) := by
  induction h generalizing done with
  | nil => exact ⟨_, rfl⟩
  | @cons e c l cs hc _ ih =>
    have hchecked : Verifier.check .instrumented c = .ok () :=
      (@ClassFile.check_traced_iff none c c (.refl (fun m => ⟨m, rfl, .inl rfl⟩) c) hc.submitted).2 (by simp)
    have hd : define origin [] e.1 e.2 = .ok (definedClass c, []) :=
      define_eq_ok_iff.2 ⟨c, c, ⟨hc.decoded, hc.name_eq, hc.submitted, rfl, hchecked⟩, rfl⟩
    obtain ⟨classes, hrest⟩ := ih ((e.1, definedClass c) :: done)
    exact ⟨classes, defineAll_cons_eq_ok_iff.2 ⟨_, _, hd, hrest⟩⟩

/-- **What can be built with tracers can be built without.** -/
theorem exists_build_plain {p : Plan} {id : UnitId} {u' : LoadingUnit} {line : Option LineTrace.Arguments}
    {method : Option MethodTrace.Arguments} {cs : List ClassFile}
    (hreads : List.Forall₂ Reads p.program.classes cs)
    (h : build { p with tracers := .traces line method } id = .ok u') :
    ∃ u, build { p with tracers := .empty } id = .ok u := by
  obtain ⟨hpolicy, -⟩ := build_eq_ok_iff.1 h
  obtain ⟨classes, hall⟩ := exists_defineAll_plain hreads []
  exact ⟨_, build_eq_ok_iff.2 ⟨hpolicy, classes, [], hall, rfl⟩⟩

end LoadingUnit

namespace Sandbox

/-! ### Runs without a limit of lines -/

theorem Prepared.Tracing.recordings_of_ended {σ : Type} {cs : List ClassFile} {origin : Origin}
    {line : Option LineTrace.Arguments} {method : Option MethodTrace.Arguments} {P P' : Prepared}
    (h : P.Tracing cs origin line method P') {answer : (r : HostRequest) → StateM σ r.Answer} {e : EntryPoint}
    {v : σ} (hread : (P.solo e v).NeverReads P.task answer) {n n' : Nat} {res res' : Except Fault Value}
    (hend : (P.soloAfter e answer v n).stand = .ended res)
    (hend' : (P'.soloAfter e answer v n').stand = .ended res') :
    (P'.soloAfter e answer v n').shared.recordings =
      P'.state.recordings.after ((P.solo e v).callsUpTo P.task answer P'.task.unit n) := by
  obtain ⟨m, calls, halike, hrecordings, -, hall⟩ := h.exists_recorded hread n'
  rw [soloAfter, hrecordings, hall res' hend', Solo.callsUpTo_eq_of_ended _ hend ((halike.ended_iff res').1 hend')]

/-- **Three runs with tracers**, with the line trace, with the method trace and with both, of the program of a run without.
None has a limit of lines. -/
structure Prepared.Three (cs : List ClassFile) (origin : Origin) (b : LineTrace.Arguments)
    (a : MethodTrace.Arguments) (P PL PM PB : Prepared) : Prop where
  lines : P.Tracing cs origin (some b) none PL ∧ ∃ subscribers, PL.Records subscribers (some b) none
  methods : P.Tracing cs origin none (some a) PM ∧ ∃ subscribers,
    PM.Records subscribers none (LoadingUnit.weave origin none (some a) cs).method
  both : P.Tracing cs origin (some b) (some a) PB ∧ ∃ subscribers,
    PB.Records subscribers (some b) (LoadingUnit.weave origin (some b) (some a) cs).method

/-- **They report alike.** -/
theorem Prepared.Three.reportedApart {cs : List ClassFile} {origin : Origin} {b : LineTrace.Arguments}
    {a : MethodTrace.Arguments} {P PL PM PB : Prepared} (h : P.Three cs origin b a PL PM PB) {σ : Type}
    {answer : (r : HostRequest) → StateM σ r.Answer} {e : EntryPoint} {v : σ}
    (hread : (P.solo e v).NeverReads P.task answer) {n nL nM nB : Nat} {res resL resM resB : Except Fault Value}
    (hend : (P.soloAfter e answer v n).stand = .ended res) (hL : (PL.soloAfter e answer v nL).stand = .ended resL)
    (hM : (PM.soloAfter e answer v nM).stand = .ended resM) (hB : (PB.soloAfter e answer v nB).stand = .ended resB) :
    (PB.soloAfter e answer v nB).traced = (PL.soloAfter e answer v nL).traced ∧
      ReportedApart (PL.soloAfter e answer v nL).traced a (LoadingUnit.NoHollow origin cs)
        (PL.soloAfter e answer v nL).shared.recordings.results
        (PM.soloAfter e answer v nM).shared.recordings.results
        (PB.soloAfter e answer v nB).shared.recordings.results := by
  obtain ⟨⟨htL, subsL, hrL, hlL⟩, ⟨htM, subsM, hrM, -⟩, ⟨htB, subsB, hrB, hlB⟩⟩ := h
  have hr : (P.solo e v).Reaches P.task := Solo.reaches_start _ _ _ _ _ _
  obtain ⟨hc, hq⟩ := @Prepared.Tracing.solo_fresh _ _ _ _ _ _ _ htL e v
  have hlive := @Solo.live_iterate _ P.task answer _ htL.built
    (LoadingUnit.tidy_of_hookFree htL.units.hookFree) hr hc hq
  have hstart := @Solo.next_of_start _ P.task P.state e.className e.methodName [] v
  rw [Solo.traced, Solo.traced, htL.recordings_of_ended hread hend hL, htM.recordings_of_ended hread hend hM,
    htB.recordings_of_ended hread hend hB, hrL, hrM, hrB]
  have hlines := @Solo.lineCalls_callsUpTo _ _ answer _ _ _ _ htL.built hr hlive hstart _ _ _ htL.units htB.units n
  obtain ⟨iM, hiM, haM⟩ := Option.map_eq_some_iff.1 (LoadingUnit.methodArguments_weave origin none (some a) cs)
  obtain ⟨iB, hiB, haB⟩ := Option.map_eq_some_iff.1 (LoadingUnit.methodArguments_weave origin (some b) (some a) cs)
  rw [hiM]
  rw [hiB] at hlB ⊢
  subst haM
  refine Recordings.reportedApart_after hlL hlB haB hlines fun hhollow => ?_
  have hsites := (LoadingUnit.sameEntry_weave (some b) htB.units.submitted hhollow iM.arguments).1
  rw [hiM, hiB] at hsites
  rw [MethodTrace.Recording.enterOf_congr (Option.some.inj hsites)]
  exact Solo.enters_callsUpTo_both htL.built hr hlive hstart htM.units htB.units hhollow iM n

/-- **Three runs with tracers are prepared as one without is.** -/
theorem exists_three {b : LineTrace.Arguments} (hb : b.runLineLimit = none) {a : MethodTrace.Arguments}
    {p : LoadingUnit.Plan} (hp : ∀ v, p.parent = some v → v.Built) {id : UnitId} {u uL uM uB : LoadingUnit}
    {cs : List ClassFile} (hreads : List.Forall₂ LoadingUnit.Reads p.program.classes cs)
    (hu : LoadingUnit.build { p with tracers := .empty } id = .ok u)
    (hL : LoadingUnit.build { p with tracers := .traces (some b) none } id = .ok uL)
    (hM : LoadingUnit.build { p with tracers := .traces none (some a) } id = .ok uM)
    (hB : LoadingUnit.build { p with tracers := .traces (some b) (some a) } id = .ok uB) {sb : Sandbox}
    {r : RegistryId} {sets : List LoadingUnit.ClassSets} {args : ExecutionArguments}
    (hargs : args.maxExtraThreads = 0) {PL PM PB : Prepared} (hPL : sb.prepare r uL sets args = .ok PL)
    (hPM : sb.prepare r uM sets args = .ok PM) (hPB : sb.prepare r uB sets args = .ok PB) :
    ∃ P, sb.prepare r u sets args = .ok P ∧ P.Three cs p.origin b a PL PM PB := by
  have hline : ∀ b' ∈ some b, b'.runLineLimit = none := by simpa using hb
  obtain ⟨P, hP, hlines⟩ := Agree.exists_ok (hPL ▸ prepare_tracing hline hp hreads hu hL sb r sets hargs)
  rw [Option.map_eq_none_iff.1 (LoadingUnit.methodArguments_weave p.origin (some b) none cs)] at hlines
  obtain ⟨P₁, hP₁, hmethods⟩ := Agree.exists_ok (hPM ▸ prepare_tracing (by simp) hp hreads hu hM sb r sets hargs)
  obtain ⟨P₂, hP₂, hboth⟩ := Agree.exists_ok (hPB ▸ prepare_tracing hline hp hreads hu hB sb r sets hargs)
  obtain rfl := Except.ok.inj (hP.symm.trans hP₁)
  obtain rfl := Except.ok.inj (hP.symm.trans hP₂)
  exact ⟨P, hP, hlines, hmethods, hboth⟩

end Sandbox

/-! ### Runs with a limit of lines -/

namespace LineTrace.Arguments

variable (b : Arguments)

def unlimited : Arguments := { b with runLineLimit := none }

/-- What the line trace reports of what it would report without its limit. -/
def limited (R : Result) : Result := b.limit?.elim R R.within

variable {b}

theorem unlimited_of_none (h : b.limit? = none) : b.unlimited = b := by
  obtain ⟨_, runLineLimit, _, _, _⟩ := b
  cases runLineLimit with
  | none => rfl
  | some n => cases h

theorem within_unlimited {l : Limit} (h : b.limit? = some l) : b.unlimited.within l = b := by
  obtain ⟨_, runLineLimit, _, _, _⟩ := b
  cases runLineLimit with
  | none => cases h
  | some n =>
    cases h
    rfl

end LineTrace.Arguments

namespace LoadingUnit

/-- What can be built with a limit of lines can be built without. -/
theorem exists_build_unlimited {b : LineTrace.Arguments} {l : Limit} (hl : b.limit? = some l)
    {method : Option MethodTrace.Arguments} {p : Plan} {id : UnitId} {u' : LoadingUnit}
    (h : build { p with tracers := .traces (some b) method } id = .ok u') :
    ∃ u, build { p with tracers := .traces (some b.unlimited) method } id = .ok u ∧ u' = u.within l := by
  have hroster : (Roster.traces (some b.unlimited) method).within l = .traces (some b) method := by
    rw [← LineTrace.Arguments.within_unlimited hl]
    cases method <;> rfl
  have hbuild := build_within l { p with tracers := .traces (some b.unlimited) method } id
  dsimp only at hbuild
  rw [hroster, h] at hbuild
  cases hu : build { p with tracers := .traces (some b.unlimited) method } id with
  | error e => rw [hu] at hbuild; cases hbuild
  | ok u =>
    rw [hu] at hbuild
    exact ⟨u, rfl, Except.ok.inj hbuild⟩

end LoadingUnit

namespace Sandbox

/-- **A run with the line trace, and the one without its limit of lines**, if there is one. -/
def Prepared.Limits (b : LineTrace.Arguments) (P P' : Prepared) : Prop :=
  (b.limit? = none ∧ P' = P) ∨ ∃ l, b.limit? = some l ∧ P.Within b.unlimited l P'

/-- With a limit of lines it is prepared as without. -/
theorem exists_limits {b : LineTrace.Arguments} {method : Option MethodTrace.Arguments} {p : LoadingUnit.Plan}
    {id : UnitId} {u' : LoadingUnit}
    (h : LoadingUnit.build { p with tracers := .traces (some b) method } id = .ok u') {sb : Sandbox}
    {r : RegistryId} {sets : List LoadingUnit.ClassSets} {args : ExecutionArguments} {P' : Prepared}
    (hP' : sb.prepare r u' sets args = .ok P') :
    ∃ u P, LoadingUnit.build { p with tracers := .traces (some b.unlimited) method } id = .ok u ∧
      sb.prepare r u sets args = .ok P ∧ P.Limits b P' := by
  cases hl : b.limit? with
  | none => exact ⟨u', P', by rwa [LineTrace.Arguments.unlimited_of_none hl], hP', .inl ⟨hl, rfl⟩⟩
  | some l =>
    obtain ⟨u, hu, rfl⟩ := LoadingUnit.exists_build_unlimited hl h
    have hroster : Roster.empty.addAll
        (.lineTrace b.unlimited :: (method.map Tracer.methodTrace).toList) =
          .ok (.traces (some b.unlimited) method) := by
      cases method <;> rfl
    obtain ⟨front, i, rest, hi, hb, hfront, hrest⟩ := @LoadingUnit.exists_lineTrace_of_build _ b.unlimited
      List.mem_cons_self _ hroster p id u hu
    have hagree := prepare_within hi (hb ▸ rfl) hfront hrest l sb r sets args
    rw [hP'] at hagree
    obtain ⟨P, hP, hwithin⟩ := Agree.exists_ok hagree
    exact ⟨u, P, hu, hP, .inr ⟨l, hl, hb ▸ hwithin⟩⟩

namespace Prepared

section Ends

variable {l : Limit} {c : LineTrace.Arguments} {P P' : Prepared} {τ : Type}
  {answer : (r : HostRequest) → StateM τ r.Answer} {e : EntryPoint} {v : τ} {n : Nat} {res : Except Fault Value}

theorem Within.alike_of_ended (h : P.Within c l P') (hend : (P'.soloAfter e answer v n).stand = .ended res)
    (hres : res ≠ .error l.fault) : (P.soloAfter e answer v n).Within l (P'.soloAfter e answer v n) := by
  by_cases hle : (P.soloAfter e answer v n).traced.linesRun ≤ l.lines
  · exact h.alike e answer v hle
  · obtain ⟨m, hm, hends⟩ := h.exists_stop e answer v (Nat.lt_of_not_le hle)
    have hstand := (hends n hm.before).stand
    exact absurd (Stand.ended.inj (hend.symm.trans hstand)) hres

theorem results_of_foundWithin {rs rs' : Recordings} (h : rs.FoundWithin l rs') {tail : List (String × Json)}
    (hresults : rs.results = (LineTrace.id, rs.traced.toJson) :: tail) :
    rs'.results = (LineTrace.id, (rs.traced.within l).toJson) :: tail := by
  obtain ⟨front, rest, hne, hrs, hrs'⟩ := exists_results h
  rw [hresults] at hrs
  cases front with
  | nil =>
    obtain ⟨-, rfl⟩ := List.cons.inj hrs
    exact hrs'
  | cons x front =>
    obtain ⟨rfl, -⟩ := List.cons.inj hrs
    exact absurd rfl (hne (LineTrace.id, _) List.mem_cons_self)

variable {b : LineTrace.Arguments}

/-- **A thread that does not end at its limit of lines** ends, and reports, as the thread without. -/
theorem Limits.of_ended (h : P.Limits b P') (hend : (P'.soloAfter e answer v n).stand = .ended res)
    (hres : ∀ l, b.limit? = some l → res ≠ .error l.fault) :
    (P.soloAfter e answer v n).stand = .ended res ∧ ∀ {tail : List (String × Json)},
      (P.soloAfter e answer v n).shared.recordings.results =
          (LineTrace.id, (P.soloAfter e answer v n).traced.toJson) :: tail →
        (P'.soloAfter e answer v n).shared.recordings.results =
          (LineTrace.id, (b.limited (P.soloAfter e answer v n).traced).toJson) :: tail := by
  rcases h with ⟨hnone, rfl⟩ | ⟨l, hl, h⟩
  · refine ⟨hend, fun {tail} hresults => ?_⟩
    rw [hresults, LineTrace.Arguments.limited, hnone]
    rfl
  · obtain ⟨-, rs', hrs, hx⟩ := h.alike_of_ended hend (hres l hl)
    rw [hx] at hend ⊢
    refine ⟨hend, fun {tail} hresults => ?_⟩
    rw [LineTrace.Arguments.limited, hl]
    exact results_of_foundWithin hrs.found hresults

end Ends

/-- **A run that ends by itself with `res` is concluded with the result `x`.** Its host gives these answers, starting
from `v`. -/
inductive Concludes (r : RegistryId) (e : EntryPoint) {τ : Type} (answer : (r : HostRequest) → StateM τ r.Answer)
    (v : τ) (P : Prepared) (res : Except Fault Value) (x : ExecutionResult) : Prop where
  | run {σ : Type} (host : Host (StateM σ)) (view : σ → τ) (limit : Nat) (rec : Record) (w : σ)
      (hserves : host.Serves answer view) (hview : view w = v)
      (houtcome : (RunState.run host P.task P.state e.work limit w).1.outcome = some (.finished res))
      (hresult : (conclude r P rec (RunState.run host P.task P.state e.work limit w).1).outcome = .ok x) :
      Concludes r e answer v P res x

theorem Concludes.exists_ended {r : RegistryId} {e : EntryPoint} {τ : Type}
    {answer : (r : HostRequest) → StateM τ r.Answer} {v : τ} {P : Prepared} {res : Except Fault Value}
    {x : ExecutionResult} (h : P.Concludes r e answer v res x)
    (halone : P.task.maxExtraThreads = 0 ∧ P.state.Lonely) : ∃ n, (P.soloAfter e answer v n).stand = .ended res ∧
      x.tracerResults = (P.soloAfter e answer v n).shared.recordings.results := by
  obtain ⟨host, view, limit, rec, w, hserves, rfl, houtcome, hresult⟩ := h
  obtain ⟨n, hrecordings, hends⟩ := P.exists_recordings_of_run halone.1 halone.2 e hserves limit w
  obtain ⟨res', houtcome', hend⟩ := hends (by simp [houtcome])
  have hsame := houtcome.symm.trans houtcome'
  simp only [Option.some.injEq, WorkEnd.finished.injEq] at hsame
  exact ⟨n, hsame ▸ hend, (tracerResults_of_conclude hresult).trans (congrArg Recordings.results hrecordings)⟩

/-- **Tracers do not disturb each other.** `P` is the run without tracers, and the others are those with the line trace,
with the method trace and with both. -/
structure TracersApart (b : LineTrace.Arguments) (a : MethodTrace.Arguments) (noHollow : Prop) (r : RegistryId)
    (e : EntryPoint) (P PL PM PB : Prepared) : Prop where
  /-- when their threads have ended, and none at its limit of lines, the tracers have recorded alike -/
  ended : ∀ {τ : Type} (answer : (r : HostRequest) → StateM τ r.Answer) (v : τ),
    (P.solo e v).NeverReads P.task answer → ∀ {nL nM nB : Nat} {resL resM resB : Except Fault Value},
      (PL.soloAfter e answer v nL).stand = .ended resL →
      (PM.soloAfter e answer v nM).stand = .ended resM →
      (PB.soloAfter e answer v nB).stand = .ended resB →
      (∀ l, b.limit? = some l → resL ≠ .error l.fault ∧ resB ≠ .error l.fault) →
        ∃ R, ReportedApart R a noHollow (PL.soloAfter e answer v nL).shared.recordings.results
          (PM.soloAfter e answer v nM).shared.recordings.results
          (PB.soloAfter e answer v nB).shared.recordings.results
  /-- so they report alike of runs -/
  concluded : ∀ {τ : Type} (answer : (r : HostRequest) → StateM τ r.Answer) (v : τ),
    (P.solo e v).NeverReads P.task answer →
      ∀ {resL resM resB : Except Fault Value} {xL xM xB : ExecutionResult},
      PL.Concludes r e answer v resL xL → PM.Concludes r e answer v resM xM → PB.Concludes r e answer v resB xB →
      (∀ l, b.limit? = some l → resL ≠ .error l.fault ∧ resB ≠ .error l.fault) →
        ∃ R, ReportedApart R a noHollow xL.tracerResults xM.tracerResults xB.tracerResults

/-- **Three runs with tracers do not disturb each other**, with a limit of lines or without. -/
theorem Three.ended {cs : List ClassFile} {origin : Origin} {b : LineTrace.Arguments} {a : MethodTrace.Arguments}
    {P QL PL PM QB PB : Prepared} (h : P.Three cs origin b.unlimited a QL PM QB) (hL : QL.Limits b PL)
    (hB : QB.Limits b PB) {τ : Type} {answer : (r : HostRequest) → StateM τ r.Answer} {e : EntryPoint} {v : τ}
    (hread : (P.solo e v).NeverReads P.task answer) {nL nM nB : Nat} {resL resM resB : Except Fault Value}
    (hendL : (PL.soloAfter e answer v nL).stand = .ended resL)
    (hendM : (PM.soloAfter e answer v nM).stand = .ended resM)
    (hendB : (PB.soloAfter e answer v nB).stand = .ended resB)
    (hlimit : ∀ l, b.limit? = some l → resL ≠ .error l.fault ∧ resB ≠ .error l.fault) :
    ∃ R, ReportedApart R a (LoadingUnit.NoHollow origin cs)
      (PL.soloAfter e answer v nL).shared.recordings.results (PM.soloAfter e answer v nM).shared.recordings.results
      (PB.soloAfter e answer v nB).shared.recordings.results := by
  obtain ⟨hendQL, hresultsL⟩ := hL.of_ended hendL fun l hl => (hlimit l hl).1
  obtain ⟨hendQB, hresultsB⟩ := hB.of_ended hendB fun l hl => (hlimit l hl).2
  have htransparent := h.lines.1.counterpart.transparent h.lines.1.lonely h.lines.1.alone ⟨0⟩ e
  obtain ⟨n, hend⟩ := ((htransparent.solo answer v hread).ends resL).2 ⟨nL, hendQL⟩
  obtain ⟨htraced, enters, steps, hlines, hmethods, hboth, hsteps⟩ :=
    h.reportedApart hread hend hendQL hendM hendQB
  exact ⟨_, enters, steps, hresultsL hlines, hmethods, htraced ▸ hresultsB (htraced.symm ▸ hboth), hsteps⟩

theorem Three.tracersApart {cs : List ClassFile} {origin : Origin} {b : LineTrace.Arguments}
    {a : MethodTrace.Arguments} {P QL PL PM QB PB : Prepared} (h : P.Three cs origin b.unlimited a QL PM QB)
    (hL : QL.Limits b PL) (hB : QB.Limits b PB) (haloneL : PL.task.maxExtraThreads = 0 ∧ PL.state.Lonely)
    (haloneM : PM.task.maxExtraThreads = 0 ∧ PM.state.Lonely)
    (haloneB : PB.task.maxExtraThreads = 0 ∧ PB.state.Lonely) (r : RegistryId) (e : EntryPoint) :
    P.TracersApart b a (LoadingUnit.NoHollow origin cs) r e PL PM PB where
  ended answer v hread := h.ended hL hB hread
  concluded answer v hread resL resM resB xL xM xB hxL hxM hxB hlimit := by
    obtain ⟨nL, hendL, hresultsL⟩ := hxL.exists_ended haloneL
    obtain ⟨nM, hendM, hresultsM⟩ := hxM.exists_ended haloneM
    obtain ⟨nB, hendB, hresultsB⟩ := hxB.exists_ended haloneB
    rw [hresultsL, hresultsM, hresultsB]
    exact h.ended hL hB hread hendL hendM hendB hlimit

end Prepared

/-- **Tracers do not disturb each other.** Take a program whose unit is built with the line trace, with the method trace,
and with both, the line trace before the method trace. Then it is built without them, too. In runs without extra threads
that never read the program's own class files and do not end at a limit of lines, the line trace reports the same with the
method trace as without. If no method of the program is hollow, that is, has lines but no real instruction, then the
entries that the method trace keeps are the same, too, as far as there is room for them beside the lines. -/
theorem tracers_apart {b : LineTrace.Arguments} {a : MethodTrace.Arguments} {p : LoadingUnit.Plan}
    (hp : ∀ v, p.parent = some v → v.Built) {id : UnitId} {uL uM uB : LoadingUnit}
    (hL : LoadingUnit.build { p with tracers := .traces (some b) none } id = .ok uL)
    (hM : LoadingUnit.build { p with tracers := .traces none (some a) } id = .ok uM)
    (hB : LoadingUnit.build { p with tracers := .traces (some b) (some a) } id = .ok uB) {cs : List ClassFile}
    (hreads : List.Forall₂ LoadingUnit.Reads p.program.classes cs) {sb : Sandbox} {r : RegistryId}
    {sets : List LoadingUnit.ClassSets} {args : ExecutionArguments} (hargs : args.maxExtraThreads = 0)
    {PL PM PB : Prepared} (hPL : sb.prepare r uL sets args = .ok PL) (hPM : sb.prepare r uM sets args = .ok PM)
    (hPB : sb.prepare r uB sets args = .ok PB) (e : EntryPoint) :
    ∃ u P, LoadingUnit.build { p with tracers := .empty } id = .ok u ∧ sb.prepare r u sets args = .ok P ∧
      P.TracersApart b a (LoadingUnit.NoHollow p.origin cs) r e PL PM PB := by
  obtain ⟨u, hu⟩ := LoadingUnit.exists_build_plain hreads hM
  obtain ⟨vL, QL, hvL, hQL, hlimitsL⟩ := exists_limits hL hPL
  obtain ⟨vB, QB, hvB, hQB, hlimitsB⟩ := exists_limits hB hPB
  obtain ⟨P, hP, hthree⟩ := exists_three (b := b.unlimited) rfl hp hreads hu hvL hM hvB hargs hQL hPM hQB
  have halone : ∀ {v : LoadingUnit} {Q : Prepared}, sb.prepare r v sets args = .ok Q →
      Q.task.maxExtraThreads = 0 ∧ Q.state.Lonely := fun hQ =>
    ⟨by rw [(prepare_eq_ok_iff.1 hQ).task, hargs], (prepare_eq_ok_iff.1 hQ).lonely⟩
  exact ⟨u, P, hu, hP, hthree.tracersApart hlimitsL hlimitsB (halone hPL) (halone hPM) (halone hPB) r e⟩

/-- The sample passes its only line, which its limit allows, and then it is refused the variable. -/
theorem tracers_apart_sample :
    let b := { LineTrace.Arguments.default with runLineLimit := some 1 }
    ∃ PL PM PB, empty.prepare ⟨0⟩ (OfClass.unit Sample.main (some b) none) [] .default = .ok PL ∧
      empty.prepare ⟨0⟩ (OfClass.unit Sample.main none (some .default)) [] .default = .ok PM ∧
      empty.prepare ⟨0⟩ (OfClass.unit Sample.main (some b) (some .default)) [] .default = .ok PB ∧
      (PB.soloAfter .default OfClass.silent () 6).traced.linesRun = 1 ∧
      OfClass.keptEntries (PB.soloAfter .default OfClass.silent () 6) = ["static Main.main()"] ∧
      ∃ R, ReportedApart R .default True
        (PL.soloAfter .default OfClass.silent () 6).shared.recordings.results
        (PM.soloAfter .default OfClass.silent () 6).shared.recordings.results
        (PB.soloAfter .default OfClass.silent () 6).shared.recordings.results := by
  intro b
  have hbuildL := @OfClass.build_plan Sample.main (some b) none rfl (by decide)
  have hbuildM := @OfClass.build_plan Sample.main none (some .default) rfl (by decide)
  have hbuildB := @OfClass.build_plan Sample.main (some b) (some .default) rfl (by decide)
  have hbuild := @OfClass.build_plan Sample.main none none rfl (by decide)
  obtain ⟨PL, hPL⟩ : ∃ P, empty.prepare ⟨0⟩ (OfClass.unit Sample.main (some b) none) [] .default = .ok P :=
    ⟨_, rfl⟩
  obtain ⟨PM, hPM⟩ : ∃ P, empty.prepare ⟨0⟩ (OfClass.unit Sample.main none (some .default)) [] .default = .ok P :=
    ⟨_, rfl⟩
  obtain ⟨PB, hPB⟩ : ∃ P, empty.prepare ⟨0⟩ (OfClass.unit Sample.main (some b) (some .default)) [] .default =
      .ok P := ⟨_, rfl⟩
  obtain ⟨u, P, hu, hP, h⟩ := @tracers_apart b .default (OfClass.plan Sample.main) (fun _ h => by cases h) ⟨1⟩ _ _ _
    hbuildL hbuildM hbuildB _ (OfClass.reads rfl) empty ⟨0⟩ [] .default rfl PL PM PB hPL hPM hPB .default
  obtain rfl : u = OfClass.unit Sample.main none none := Except.ok.inj (hu.symm.trans hbuild)
  have hread : (P.solo .default ()).NeverReads P.task OfClass.silent :=
    OfClass.neverReads (c := Sample.main) (by decide) (by rw [(prepare_eq_ok_iff.1 hP).task]) .default
  have hendL : OfClass.refused? (PL.soloAfter .default OfClass.silent () 6) = some (.readEnv "HOME") := by
    cases hPL
    decide +kernel
  have hendM : OfClass.refused? (PM.soloAfter .default OfClass.silent () 6) = some (.readEnv "HOME") := by
    cases hPM
    decide +kernel
  have hendB : OfClass.refused? (PB.soloAfter .default OfClass.silent () 6) = some (.readEnv "HOME") := by
    cases hPB
    decide +kernel
  have hlines : (PB.soloAfter .default OfClass.silent () 6).traced.linesRun = 1 := by
    cases hPB
    decide +kernel
  have hentries : OfClass.keptEntries (PB.soloAfter .default OfClass.silent () 6) = ["static Main.main()"] := by
    cases hPB
    decide +kernel
  refine ⟨PL, PM, PB, hPL, hPM, hPB, hlines, hentries, ?_⟩
  have hhollow : LoadingUnit.NoHollow (OfClass.plan Sample.main).origin [Sample.main] := by
    intro _ c hc _ m hm
    obtain rfl := List.mem_singleton.1 hc
    obtain rfl := List.mem_singleton.1 hm
    decide
  have hlimit : ∀ l : Limit, (.error (.security (.readEnv "HOME")) : Except Fault Value) ≠ .error l.fault := by
    intro l
    unfold LineTrace.Limit.fault
    split <;> simp
  obtain ⟨R, enters, steps, hlines, hmethods, hboth, hsteps⟩ :=
    h.ended OfClass.silent () hread (OfClass.stand_of_refused hendL) (OfClass.stand_of_refused hendM)
      (OfClass.stand_of_refused hendB) fun l _ => ⟨hlimit l, hlimit l⟩
  exact ⟨R, enters, steps, hlines, hmethods, hboth, fun _ => hsteps hhollow⟩

/-- **The line trace can add to the entries that the method trace keeps.** One method of this class has a line and no real
instruction. The method trace leaves it alone, but it takes the call that the line trace has put there for such an
instruction. -/
theorem not_entries_apart :
    ∃ P PM PB, LoadingUnit.build { OfClass.plan OfClass.calling with tracers := .traces (some .default) none } ⟨1⟩ =
        .ok (OfClass.unit OfClass.calling (some .default) none) ∧
      LoadingUnit.build { OfClass.plan OfClass.calling with tracers := .traces none (some .default) } ⟨1⟩ =
        .ok (OfClass.unit OfClass.calling none (some .default)) ∧
      LoadingUnit.build { OfClass.plan OfClass.calling with
        tracers := .traces (some .default) (some .default) } ⟨1⟩ =
          .ok (OfClass.unit OfClass.calling (some .default) (some .default)) ∧
      empty.prepare ⟨0⟩ (OfClass.unit OfClass.calling none none) [] .default = .ok P ∧
      empty.prepare ⟨0⟩ (OfClass.unit OfClass.calling none (some .default)) [] .default = .ok PM ∧
      empty.prepare ⟨0⟩ (OfClass.unit OfClass.calling (some .default) (some .default)) [] .default = .ok PB ∧
      (P.solo .default ()).NeverReads P.task OfClass.silent ∧
      (∃ res, (PM.soloAfter .default OfClass.silent () 15).stand = .ended res) ∧
      (∃ res, (PB.soloAfter .default OfClass.silent () 15).stand = .ended res) ∧
      OfClass.keptEntries (PM.soloAfter .default OfClass.silent () 15) =
        ["static Main.main()", "Main.note(text)"] ∧
      OfClass.keptEntries (PB.soloAfter .default OfClass.silent () 15) =
        ["static Main.main()", "Main.note(text)", "static Main.empty()"] := by
  obtain ⟨P, hP⟩ : ∃ P, empty.prepare ⟨0⟩ (OfClass.unit OfClass.calling none none) [] .default = .ok P := ⟨_, rfl⟩
  obtain ⟨PM, hPM⟩ : ∃ P, empty.prepare ⟨0⟩ (OfClass.unit OfClass.calling none (some .default)) [] .default =
      .ok P := ⟨_, rfl⟩
  obtain ⟨PB, hPB⟩ : ∃ P, empty.prepare ⟨0⟩ (OfClass.unit OfClass.calling (some .default) (some .default)) []
      .default = .ok P := ⟨_, rfl⟩
  refine ⟨P, PM, PB, OfClass.build_plan rfl (by decide), OfClass.build_plan rfl (by decide),
    OfClass.build_plan rfl (by decide), hP, hPM, hPB,
    OfClass.neverReads (c := OfClass.calling) (by decide) (by rw [(prepare_eq_ok_iff.1 hP).task]) .default, ?_, ?_, ?_, ?_⟩
  · cases hPM
    exact OfClass.exists_of_isEnded (by decide +kernel)
  · cases hPB
    exact OfClass.exists_of_isEnded (by decide +kernel)
  · cases hPM
    decide +kernel
  · cases hPB
    decide +kernel

end Sandbox

end Confine
