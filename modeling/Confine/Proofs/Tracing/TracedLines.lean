import Confine.Proofs.Tracing.TracedUnits

/-!
# The lines that the line trace records

A step passes the lines of the labels whose site its instruction is (`Method.linesAt`), if it is executed without an error.

* `Solo.lines` — the lines that a thread without tracers passes with its first steps;
* `Solo.eventsOf_callsUpTo` — **the calls that a run makes report its lines**;
* `Sandbox.lineTrace_faithful` — so the recorded line trace is that of the run.
-/

namespace Confine

open LineTrace.Recording (eventsOf)

/-! ### The lines of a program -/

/-- The lines that a frame passes when its next instruction is executed: those of the traced labels whose site this is.
There are none in a class without a source file, or in one of another unit. -/
def LoadingUnit.linesOf (u : LoadingUnit) (f : Frame) : List LineEvent :=
  match (u.own.class? f.className).bind (·.sourceFile) with
  | none => []
  | some source => (f.method.method.linesAt f.next).map fun n => ⟨source, n, 0⟩

namespace Solo

variable {σ : Type} (t : Task) (answer : (r : HostRequest) → StateM σ r.Answer)

/-- The lines that a thread passes with its next step, if the instruction is executed without an error. -/
def linesPassed (x : Solo σ) : List LineEvent :=
  match x.frames with
  | [] => []
  | f :: _ => if f.executes t x.shared then t.unit.linesOf f else []

/-- **The lines of the first steps of a thread**, one after the other. -/
def lines (n : Nat) (x : Solo σ) : List LineEvent :=
  (List.range n).flatMap fun k => ((step t answer)^[k] x).linesPassed t

end Solo

/-! ### The hooks of a program -/

theorem LineTrace.Recording.eventsOf_append (l l' : List (String × HookCall)) :
    eventsOf (l ++ l') = eventsOf l ++ eventsOf l' := List.filterMap_append ..

theorem LineTrace.Recording.eventsOf_eq_nil {l : List (String × HookCall)} (h : ∀ c ∈ l, c.1 ≠ LineTrace.id) :
    eventsOf l = [] := by
  refine List.filterMap_eq_nil_iff.2 fun c hc => ?_
  rw [lineOf?, if_neg (h c hc)]
  rfl

theorem LineTrace.eventsOf_sitedAt (f : Frame) (source : String) (number : Nat) (m : Method) (j : Nat) :
    eventsOf ((sitedAt (hookOf? source number m) m.code j).filterMap f.hookCall?) =
      (m.linesAt j).map fun n => ⟨source, n, 0⟩ := by
  rw [Method.linesAt, map_sitedAt, eventsOf, List.filterMap_filterMap, filterMap_sitedAt]
  refine sitedAt_congr (fun k l hl => ?_) j
  obtain ⟨place, hhook⟩ := hookOf_of_labelAt hl source number
  rw [hhook]
  cases m.lineOf? l with
  | none => rfl
  | some n =>
    obtain ⟨line, hline⟩ := Recording.lineOf_lineHook f source number place n
    obtain ⟨c, hc, hline⟩ := Option.bind_eq_some_iff.1 hline
    simp [hc, hline]

namespace LoadingUnit.Tracing

variable {u u' : LoadingUnit} {cs : List ClassFile} {line : Option LineTrace.Arguments}
  {a : LineTrace.Arguments} {method : Option MethodTrace.Arguments} {origin : Origin}

/-- The hooks behind an instruction of the unit with tracers report its lines. -/
theorem eventsOf_hooksBehind (h : Tracing cs .untrusted (some a) method u u') (hu : u.Built) {f : Frame}
    (hf : f.Found u) :
    eventsOf ((hooksBehind (u'.codeOf f) f.next).filterMap f.hookCall?) = u.linesOf f := by
  rcases h.codeOf_cases hu hf with ⟨hown, -, hcode⟩ | ⟨c, hc, m, hm, m', hown, -, hmethod, hcode, hwoven⟩
  · rw [hcode, linesOf, hown]
    rfl
  · have hsource : (u.own.class? f.className).bind (·.sourceFile) = c.sourceFile := by
      rw [hown]
      rfl
    have hsame : f.method.method = m := by
      rw [hmethod]
      rfl
    have hplain : ∀ i ∈ m.code, i.isHook = false := fun i => (h.verified hc hm).not_isHook
    rw [hcode, linesOf, hsource, hsame]
    rcases hwoven.hooksBehind_eq hplain with ⟨hnone, hbehind⟩ | ⟨s, number, hsome, hbehind⟩
    · have hnone : c.sourceFile = none := hnone
      rw [hbehind, hnone]
      rfl
    · have hsome : c.sourceFile = some s := hsome
      rw [hbehind, hsome, LineTrace.eventsOf_sitedAt]

/-- **The calls that belong to an instruction** report its lines, if it is executed. -/
theorem eventsOf_passing (h : Tracing cs .untrusted (some a) method u u') (hu : u.Built) {f : Frame}
    (hf : f.Found u) (hplain : ∀ i ∈ f.method.code, i.isHook = false) (t : Task) (s : TaskState) :
    eventsOf (u'.passing t s f) = if f.executes t s then u.linesOf f else [] := by
  have hnone : f.method.code[f.next]?.bind f.hookCall? = none := by
    refine Option.bind_eq_none_iff.2 fun i hi => ?_
    have hi := hplain i (Array.mem_of_getElem? hi)
    cases i <;> first | rfl | cases hi
  rw [passing, hnone]
  dsimp only
  split
  · rw [keptBefore_of_not_isHook fun i hi => hplain i (Array.mem_toList_iff.1 hi),
      h.eventsOf_hooksBehind hu hf]
  · rfl

/-- Only entries are ahead of a method. -/
theorem ahead_id (h : Tracing cs origin line method u u') (hu : u.Built) {f : Frame} (hf : f.Found u)
    (hnext : f.next = 0) : ∀ c ∈ u'.ahead f, c.1 = MethodTrace.id := by
  intro c hc
  obtain ⟨i, hi, hcall⟩ := List.mem_filterMap.1 hc
  rcases h.codeOf_cases hu hf with ⟨-, -, hcode⟩ | ⟨c, hc, m, hm, m', -, -, -, hcode, m₁, hlined, hsited⟩
  · rw [hcode, hooksAt_nil] at hi
    cases hi
  · have hplain : ∀ i ∈ m.code, i.isHook = false := fun i => (h.verified hc hm).not_isHook
    rw [hcode, hnext] at hi
    rcases hsited.hooksAt_zero (hlined.hooksAt_zero hplain) with ⟨-, hhooks⟩ | ⟨_, _, -, -, -, hhooks⟩
    · rw [hhooks] at hi
      cases hi
    · rw [hhooks] at hi
      obtain rfl := List.mem_singleton.1 hi
      cases hcall
      rfl

end LoadingUnit.Tracing

theorem Frame.Found.hookFree {u : LoadingUnit} (h : ∀ l ∈ u.layers, l.HookFree) {f : Frame} (hf : f.Found u) :
    ∀ i ∈ f.method.code, i.isHook = false := by
  obtain ⟨name, c, hfind, -, hm⟩ := hf
  obtain ⟨k, hk⟩ := LoadingUnit.findIn_eq_some_iff.1 hfind
  obtain ⟨l, hl, hclass⟩ := hk.defined
  exact h l (List.mem_of_getElem? hl) name c hclass _ hm

theorem LoadingUnit.tidy_of_hookFree {u : LoadingUnit} (h : u.own.HookFree) : u.Tidy := by
  intro name c hc m hm k i _ _ _
  rw [hookAt, Option.any_eq_false]
  intro i' hi'
  simp [h name c hc m hm i' (Array.mem_toList_iff.1 (List.mem_of_getElem? hi'))]

namespace Solo

variable {σ : Type} {t : Task} {answer : (r : HostRequest) → StateM σ r.Answer} {x : Solo σ}
  {u' : LoadingUnit} {cs : List ClassFile} {a : LineTrace.Arguments} {method : Option MethodTrace.Arguments}
  (h : LoadingUnit.Tracing cs .untrusted (some a) method t.unit u') (hu : t.unit.Built)
  (hlayers : ∀ l ∈ t.unit.layers, l.HookFree) (hr : x.Reaches t) (hc : x.shared.cancelled = false)

include h hu hlayers hr hc

/-- **The calls that belong to a step** report the lines that the thread passes with it. -/
theorem eventsOf_calls : eventsOf (x.calls t answer u') = x.linesPassed t := by
  cases hx : x.frames with
  | nil => rw [calls_of_nil hx, linesPassed, hx]; rfl
  | cons f outer =>
    have hf : f.Found t.unit := hr.found hu f (by simp [hx])
    have hahead : eventsOf (((x.entered? t answer).map u'.ahead).getD []) = [] := by
      cases he : x.entered? t answer with
      | none => rfl
      | some g =>
        obtain ⟨hg, hnext⟩ := found_of_entered hu hr hc he
        exact LineTrace.Recording.eventsOf_eq_nil fun c hc => by
          rw [h.ahead_id hu hg hnext c hc]
          decide
    rw [calls_of_frames hx, LineTrace.Recording.eventsOf_append, hahead, List.append_nil,
      h.eventsOf_passing hu hf (hf.hookFree hlayers), linesPassed, hx]

/-- **The calls of a run report its lines.** -/
theorem eventsOf_callsUpTo (hq : x.shared.recordings.Quiet) (hstart : ∀ f ∈ x.frames, f.next = 0) (n : Nat) :
    eventsOf (x.callsUpTo t answer u' n) = x.lines t answer n := by
  induction n with
  | zero =>
    simp only [callsUpTo, lines, List.range_zero, List.flatMap_nil, List.append_nil]
    cases hx : x.frames with
    | nil => rw [ahead_of_nil hx]; rfl
    | cons f outer =>
      have hf : f.Found t.unit := hr.found hu f (by simp [hx])
      rw [ahead_of_frames hx]
      exact LineTrace.Recording.eventsOf_eq_nil fun c hc => by
        rw [h.ahead_id hu hf (hstart f (by simp [hx])) c hc]
        decide
  | succ n ih =>
    have htidy := LoadingUnit.tidy_of_hookFree (hlayers t.unit.own (by simp [LoadingUnit.layers]))
    have hlive := @live_iterate _ t answer _ hu htidy hr hc hq n
    rw [callsUpTo_succ, LineTrace.Recording.eventsOf_append, ih,
      eventsOf_calls h hu hlayers (reaches_iterate t answer hr n) hlive, lines, lines, List.range_succ,
      List.flatMap_append, List.flatMap_singleton]

end Solo

/-! ### What is reported -/

/-- **The tracers report some lines**: the line trace keeps the first of them and counts all, and the lines among the
steps of the method trace, if there is one, are the same. -/
def LinesReported (a : LineTrace.Arguments) (method : Option MethodTrace.Arguments) (events : List LineEvent)
    (rs : Recordings) : Prop :=
  ∃ steps : List MethodTrace.Step,
    steps.filterMap (·.line?) = events.map (fun e => (e.source, e.line)) ∧
      rs.Report (some ⟨a, events.take a.recordedStepLimit, events.length⟩)
        (method.map fun b => ⟨b, steps.take b.recordedStepLimit⟩)

/-- Calls report the lines that they report. -/
theorem linesReported_after {a : LineTrace.Arguments} (hlimit : a.runLineLimit = none)
    (hcoalesce : a.coalesce = false) {subscribers : List LineTrace.Subscriber}
    {method : Option MethodTrace.Instrumentation}
    (h : Recordings.Linked (some ⟨a, [], subscribers⟩) (method.map fun i => ⟨i, #[]⟩))
    (calls : List (String × HookCall)) :
    LinesReported a (method.map (·.arguments)) (eventsOf calls)
      ((Recordings.traces (some ⟨a, [], subscribers⟩) (method.map fun i => ⟨i, #[]⟩)).after calls) := by
  rw [Recordings.after_traces h]
  cases method with
  | none =>
    have hreport := Recordings.report_traces (some (LineTrace.Recording.afterCalls ⟨a, [], subscribers⟩ calls)) none
    rw [Option.map_some, LineTrace.Recording.report_afterCalls hlimit hcoalesce] at hreport
    refine ⟨(eventsOf calls).map fun e => .line e.source e.line, ?_, hreport⟩
    rw [List.filterMap_map]
    exact List.filterMap_eq_map.symm ▸ rfl
  | some i =>
    have hkeeps := LineTrace.Recording.keeps_start a subscribers
    have hreport := Recordings.report_traces (some (LineTrace.Recording.afterCalls ⟨a, [], subscribers⟩ calls))
      (some ((MethodTrace.Recording.mk i #[]).recordAll
        (MethodTrace.Recording.allStepsOf i (some ⟨a, [], subscribers⟩) calls)))
    rw [Option.map_some, Option.map_some, LineTrace.Recording.report_afterCalls hlimit hcoalesce,
      MethodTrace.Recording.report_recordAll] at hreport
    exact ⟨_, MethodTrace.Recording.lines_allStepsOf i hlimit hcoalesce hkeeps calls, hreport⟩

namespace Sandbox

/-- **What is reported of a run are the lines of the program.** `P` is the run without tracers, and `P'` the one with the
line trace. -/
structure Prepared.LinesTraced (a : LineTrace.Arguments) (method : Option MethodTrace.Arguments)
    (r : RegistryId) (e : EntryPoint) (P P' : Prepared) : Prop where
  /-- when the run has ended, they are the lines of the whole run -/
  ended : ∀ {τ : Type} (answer : (r : HostRequest) → StateM τ r.Answer) (v : τ),
    (P.solo e v).NeverReads P.task answer → ∀ n res,
      ((Solo.step P.task answer)^[n] (P.solo e v)).stand = .ended res →
        ∃ n', ((Solo.step P'.task answer)^[n'] (P'.solo e v)).stand = .ended res ∧
          LinesReported a method ((P.solo e v).lines P.task answer n)
            ((Solo.step P'.task answer)^[n'] (P'.solo e v)).shared.recordings
  /-- at any moment they are the first of those that the program passes -/
  meanwhile : ∀ {τ : Type} (answer : (r : HostRequest) → StateM τ r.Answer) (v : τ),
    (P.solo e v).NeverReads P.task answer → ∀ n', ∃ n events,
      events <+: (P.solo e v).lines P.task answer n ∧
        LinesReported a method events
          ((Solo.step P'.task answer)^[n'] (P'.solo e v)).shared.recordings
  /-- so they are in the result of a run, be it that it has ended or been cut off -/
  run : ∀ {σ τ : Type} {answer : (r : HostRequest) → StateM τ r.Answer} {host : Host (StateM σ)}
    {view : σ → τ} (limit : Nat) (rec : Record) (w : σ), host.Serves answer view →
    (P.solo e (view w)).NeverReads P.task answer →
    let q := RunState.run host P'.task P'.state e.work limit w
    ∀ x, (conclude r P' rec q.1).outcome = .ok x → x.tracerResults = q.1.shared.recordings.results ∧ ∃ n events,
      LinesReported a method events q.1.shared.recordings ∧
        events <+: (P.solo e (view w)).lines P.task answer n ∧
        (q.1.outcome ≠ none →
          (∃ res, ((Solo.step P.task answer)^[n] (P.solo e (view w))).stand = .ended res) ∧
            events = (P.solo e (view w)).lines P.task answer n)

namespace Prepared.Tracing

variable {σ : Type} {cs : List ClassFile} {a : LineTrace.Arguments} {method : Option MethodTrace.Arguments}
  {P P' : Prepared} (h : P.Tracing cs .untrusted (some a) method P')
  (hlayers : ∀ l ∈ P.task.unit.layers, l.HookFree) (hlimit : a.runLineLimit = none)
  (hcoalesce : a.coalesce = false) {subscribers : List LineTrace.Subscriber}
  (hrecords : P'.Records subscribers (some a) (LoadingUnit.weave .untrusted (some a) method cs).method)
  {answer : (r : HostRequest) → StateM σ r.Answer} {e : EntryPoint} {v : σ}

include h hlayers

theorem eventsOf_callsUpTo (n : Nat) : eventsOf ((P.solo e v).callsUpTo P.task answer P'.task.unit n) =
    (P.solo e v).lines P.task answer n := by
  obtain ⟨hc, hquiet⟩ := @solo_fresh _ _ _ _ _ _ _ h e v
  exact Solo.eventsOf_callsUpTo h.units h.built hlayers (Solo.reaches_start _ _ _ _ _ _) hc hquiet
    (Solo.next_of_start P.state e.className e.methodName [] v) n

theorem lines_eq_of_ended {m n : Nat} {res res' : Except Fault Value}
    (hm : ((Solo.step P.task answer)^[m] (P.solo e v)).stand = .ended res)
    (hn : ((Solo.step P.task answer)^[n] (P.solo e v)).stand = .ended res') :
    (P.solo e v).lines P.task answer m = (P.solo e v).lines P.task answer n := by
  rw [← eventsOf_callsUpTo h hlayers, ← eventsOf_callsUpTo h hlayers, Solo.callsUpTo_eq_of_ended _ hn hm]

include hlimit hcoalesce hrecords

/-- What has been reported at any moment, and in the end. -/
theorem exists_linesReported (hread : (P.solo e v).NeverReads P.task answer) (n' : Nat) :
    ∃ n events, ((Solo.step P.task answer)^[n] (P.solo e v)).Alike
        ((Solo.step P'.task answer)^[n'] (P'.solo e v)) ∧
      LinesReported a method events
        ((Solo.step P'.task answer)^[n'] (P'.solo e v)).shared.recordings ∧
      events <+: (P.solo e v).lines P.task answer n ∧
      ∀ res, ((Solo.step P'.task answer)^[n'] (P'.solo e v)).stand = .ended res →
        events = (P.solo e v).lines P.task answer n := by
  obtain ⟨n, calls, halike, hrecordings, hprefix, hall⟩ := h.exists_recorded hread n'
  have hlines := @eventsOf_callsUpTo _ _ _ _ _ _ h hlayers answer e v n
  have hreported := linesReported_after hlimit hcoalesce hrecords.2 calls
  rw [LoadingUnit.methodArguments_weave] at hreported
  refine ⟨n, eventsOf calls, halike, ?_, ?_, fun res hres => ?_⟩
  · -- what is recorded
    rw [hrecordings, hrecords.1]
    exact hreported
  · -- a prefix of the lines
    rw [← hlines]
    exact hprefix.filterMap _
  · -- all of them at the end
    rw [hall res hres, hlines]

theorem linesTraced (r : RegistryId) (e : EntryPoint) : P.LinesTraced a method r e P' where
  ended answer v hread n res hend := by
    obtain ⟨n', hend'⟩ := (((h.counterpart.transparent h.lonely h.alone r e).solo answer v hread).ends
      res).1 ⟨n, hend⟩
    obtain ⟨m, events, halike, hreported, -, hall⟩ :=
      exists_linesReported h hlayers hlimit hcoalesce hrecords hread n'
    have hm := (halike.ended_iff res).1 hend'
    rw [hall res hend', lines_eq_of_ended h hlayers hm hend] at hreported
    exact ⟨n', hend', hreported⟩
  meanwhile answer v hread n' := by
    obtain ⟨n, events, -, hreported, hprefix, -⟩ :=
      exists_linesReported h hlayers hlimit hcoalesce hrecords hread n'
    exact ⟨n, events, hprefix, hreported⟩
  run limit rec w hserves hread := by
    intro q x hx
    have halone' : P'.task.maxExtraThreads = 0 := h.counterpart.task.maxExtraThreads.trans h.alone
    obtain ⟨n', hrecordings, hends⟩ :=
      P'.exists_recordings_of_run halone' (h.counterpart.lonely h.lonely) e hserves limit w
    obtain ⟨n, events, halike, hreported, hprefix, hall⟩ :=
      exists_linesReported h hlayers hlimit hcoalesce hrecords hread n'
    refine ⟨tracerResults_of_conclude hx, n, events, hrecordings ▸ hreported, hprefix, fun ho => ?_⟩
    obtain ⟨res, -, hend'⟩ := hends ho
    exact ⟨⟨res, (halike.ended_iff res).1 hend'⟩, hall res hend'⟩

end Prepared.Tracing

/-- **The recorded line trace is the line trace of the program.** Take an untrusted program on library units, and its unit
without tracers and with a line trace that neither coalesces nor has a limit of lines, perhaps beside the method trace.
Without extra threads both runs begin alike, or fail alike. If the program never reads its own class files, then what the
line trace has kept and counted are the lines that the program passes when it runs without tracers, label by label in
the order of the code each time the site of some is executed; and the method trace is told of the same lines. -/
theorem lineTrace_faithful {a : LineTrace.Arguments} (hlimit : a.runLineLimit = none)
    (hcoalesce : a.coalesce = false) (method : Option MethodTrace.Arguments) {p : LoadingUnit.Plan}
    (horigin : p.origin = .untrusted) (hp : ∀ v, p.parent = some v → v.Library) {id : UnitId}
    {u u' : LoadingUnit} (hu : LoadingUnit.build { p with tracers := .empty } id = .ok u)
    (hu' : LoadingUnit.build { p with tracers := .traces (some a) method } id = .ok u') (sb : Sandbox)
    (r : RegistryId) (sets : List LoadingUnit.ClassSets) {args : ExecutionArguments}
    (hargs : args.maxExtraThreads = 0) (e : EntryPoint) :
    Agree (Prepared.LinesTraced a method r e) (sb.prepare r u sets args) (sb.prepare r u' sets args) := by
  obtain ⟨cs, hreads, -⟩ := LoadingUnit.exists_weaves_of_build hu'
  have htracing := prepare_tracing (by simpa using hlimit) (fun v hv => (hp v hv).built) hreads hu hu' sb r
    sets hargs
  refine htracing.imp fun P P' hP ⟨h, subscribers, hrecords⟩ => ?_
  have hunit : P.task.unit = u := by rw [(prepare_eq_ok_iff.1 hP).task]
  rw [horigin] at h hrecords
  have hlayers : ∀ l ∈ P.task.unit.layers, l.HookFree :=
    List.forall_mem_cons.2 ⟨h.units.hookFree, hunit ▸ LoadingUnit.hookFree_parents_of_build hp hu⟩
  exact Prepared.Tracing.linesTraced h hlayers hlimit hcoalesce hrecords r e

/-- A class that counts down from two in a loop. The loop starts with two lines whose labels share a frame; it is
entered from above and by the jump. -/
def countdown : ClassFile :=
  ⟨"Main", some "Main.java",
    [⟨"main", true, [], 1,
      [.label ⟨0⟩, .lineNumber 1 ⟨0⟩, .push (.int 2), .store 0,
        .label ⟨1⟩, .lineNumber 2 ⟨1⟩, .label ⟨2⟩, .lineNumber 3 ⟨2⟩, .frame 0,
        .load 0, .push (.int 1), .binary .sub, .dup, .store 0, .push (.int 0), .binary .gt, .jumpIf ⟨1⟩,
        .label ⟨3⟩, .lineNumber 4 ⟨3⟩, .ret], []⟩]⟩

/-- The lines of the loop are passed twice. -/
theorem lineTrace_faithful_countdown :
    let a := { LineTrace.Arguments.default with coalesce := false }
    let unit := OfClass.unit countdown (some a) (some .default)
    ∃ P', LoadingUnit.build { OfClass.plan countdown with tracers := .traces (some a) (some .default) } ⟨1⟩ = .ok unit ∧
      empty.prepare ⟨0⟩ unit [] .default = .ok P' ∧
      ∃ n' res, ((Solo.step P'.task OfClass.silent)^[n'] (P'.solo .default ())).stand = .ended res ∧
        LinesReported a (some .default) ([1, 2, 3, 2, 3, 4].map fun n => ⟨"Main.java", n, 0⟩)
          ((Solo.step P'.task OfClass.silent)^[n'] (P'.solo .default ())).shared.recordings := by
  intro a unit
  have hbuild := @OfClass.build_plan countdown none none rfl (by decide)
  have hbuild' := @OfClass.build_plan countdown (some a) (some .default) rfl (by decide +kernel)
  have hagree := @lineTrace_faithful a rfl rfl (some .default) (OfClass.plan countdown) rfl (fun _ h => by cases h) ⟨1⟩
    _ _ hbuild hbuild' empty ⟨0⟩ [] .default rfl .default
  obtain ⟨P, hP⟩ : ∃ P, empty.prepare ⟨0⟩ (OfClass.unit countdown none none) [] .default = .ok P := ⟨_, rfl⟩
  obtain ⟨P', hP'⟩ : ∃ P', empty.prepare ⟨0⟩ unit [] .default = .ok P' := ⟨_, rfl⟩
  rw [hP, hP'] at hagree
  obtain @⟨_, _, h⟩ := hagree
  have hread : (P.solo .default ()).NeverReads P.task OfClass.silent :=
    OfClass.neverReads (c := countdown) (by decide) (by rw [(prepare_eq_ok_iff.1 hP).task]) .default
  obtain ⟨res, hend⟩ : ∃ res, ((Solo.step P.task OfClass.silent)^[33] (P.solo .default ())).stand = .ended res := by
    cases hP
    exact OfClass.exists_of_isEnded (by decide +kernel)
  have hlines : (P.solo .default ()).lines P.task OfClass.silent 33 =
      [1, 2, 3, 2, 3, 4].map fun n => ⟨"Main.java", n, 0⟩ := by
    cases hP
    decide +kernel
  obtain ⟨n', hend', hreported⟩ := h.ended OfClass.silent () hread 33 res hend
  exact ⟨P', hbuild', hP', n', res, hend', hlines ▸ hreported⟩

end Sandbox

end Confine
