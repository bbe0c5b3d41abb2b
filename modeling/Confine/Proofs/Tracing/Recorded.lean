import Confine.Proofs.Tracing.HookCalls

/-!
# What tracers make of calls

The line trace and the method trace of a task get the calls of a thread one after the other.

* `Recordings.after_traces` — each makes of them what it makes of its own, and the method trace is told of lines;
* `LineTrace.Recording.report_afterCalls` — without a limit and without coalescing, all lines are counted and the first kept;
* `MethodTrace.Recording.filter_allStepsOf`, `MethodTrace.Recording.lines_allStepsOf` — among the steps of the method trace
  are the entries of its calls, and the lines.
-/

namespace Confine

/-! ### Calls into the line trace -/

namespace LineTrace.Recording

def lineOf? (c : String × HookCall) : Option (LastLine × LineEvent) :=
  if c.1 = LineTrace.id then line? c.2 0 else none

def afterCall (r : Recording) (c : String × HookCall) : Recording :=
  match lineOf? c with
  | some p => (r.onLine p.1 p.2).2
  | none => r

def afterCalls (r : Recording) (calls : List (String × HookCall)) : Recording := calls.foldl afterCall r

def counted? (r : Recording) (c : String × HookCall) : Option LineEvent :=
  match lineOf? c with
  | some p => if (r.onLine p.1 p.2).1 = .counted then some p.2 else none
  | none => none

end LineTrace.Recording

theorem LineTrace.Recording.thread_lineOf {c : String × HookCall} {p : LastLine × LineEvent}
    (h : lineOf? c = some p) : p.2.thread = 0 := by
  unfold lineOf? at h
  split at h
  · exact Recordings.thread_line? h
  · cases h

theorem LineTrace.Recording.lineOf_lineHook (f : Frame) (source : String) (number place : Nat) (n : UInt32) :
    ∃ line, (f.hookCall? (lineHook source number place n)).bind lineOf? = some (line, ⟨source, n, 0⟩) := by
  refine ⟨⟨(Int64.ofNat number).toUInt64, Int64.ofNat place, n⟩, ?_⟩
  simp [lineHook, Frame.hookCall?, lineOf?, line?, Frame.operand, Value.ofConstant]

/-! ### Calls into the method trace -/

namespace MethodTrace

/-- The step is the entry of a method. -/
def Step.isEnter : Step → Bool
  | .enter _ _ _ => true
  | .line _ _ => false

namespace Recording

/-- The entry that a call reports, if it is one into the method trace. -/
def enterOf? (i : Instrumentation) (c : String × HookCall) : Option Step :=
  if c.1 = MethodTrace.id then enter? i c.2 else none

def recordAll (r : Recording) (steps : List Step) : Recording := steps.foldl record r

/-- The steps that a call of the main thread leads to, in a task with or without a line trace. -/
def stepsOf (i : Instrumentation) (line : Option LineTrace.Recording) (c : String × HookCall) : List Step :=
  ((line.bind (·.counted? c)).map fun e => Step.line e.source e.line).toList ++ (enterOf? i c).toList

/-- The steps that some calls lead to. -/
def allStepsOf (i : Instrumentation) :
    Option LineTrace.Recording → List (String × HookCall) → List Step
  | _, [] => []
  | line, c :: calls => stepsOf i line c ++ allStepsOf i (line.map (·.afterCall c)) calls

section Room

variable (r : Recording) (l l' : List Step)

@[simp] theorem instrumentation_recordAll : (r.recordAll l).instrumentation = r.instrumentation := by
  induction l generalizing r with
  | nil => rfl
  | cons s l ih =>
    refine (ih (r.record s)).trans ?_
    unfold record
    split <;> rfl

theorem recordAll_append : r.recordAll (l ++ l') = (r.recordAll l).recordAll l' := List.foldl_append ..

/-- **The first steps are kept**, as many as there is room for. -/
theorem steps_recordAll (hr : r.steps.size ≤ r.instrumentation.arguments.recordedStepLimit) :
    (r.recordAll l).steps.toList =
      (r.steps.toList ++ l).take r.instrumentation.arguments.recordedStepLimit := by
  induction l generalizing r with
  | nil =>
    rw [List.append_nil, List.take_of_length_le (by rwa [Array.length_toList])]
    rfl
  | cons s l ih =>
    have hcons : r.recordAll (s :: l) = (r.record s).recordAll l := rfl
    rw [hcons]
    by_cases hroom : r.steps.size < r.instrumentation.arguments.recordedStepLimit
    · have hrecord : r.record s = { r with steps := r.steps.push s } := if_pos hroom
      rw [hrecord, ih _ (by rw [Array.size_push]; exact hroom)]
      simp
    · have hrecord : r.record s = r := if_neg hroom
      have hfull : r.steps.toList.length = r.instrumentation.arguments.recordedStepLimit := by
        rw [Array.length_toList]
        omega
      rw [hrecord, ih r hr, ← hfull, List.take_left, List.take_left]

end Room

theorem report_recordAll (i : Instrumentation) (l : List Step) :
    ((Recording.mk i #[]).recordAll l).report = ⟨i.arguments, l.take i.arguments.recordedStepLimit⟩ := by
  rw [report, instrumentation_recordAll, steps_recordAll _ _ (Nat.zero_le _)]
  rfl

theorem isEnter_of_enterOf {i : Instrumentation} {c : String × HookCall} {s : Step}
    (h : enterOf? i c = some s) : s.isEnter = true := by
  unfold enterOf? enter? at h
  split at h
  · split at h
    · cases h
    · split at h
      · dsimp only at h
        split at h
        · obtain ⟨n, -, h⟩ := Option.bind_eq_some_iff.1 h
          obtain ⟨site, -, h⟩ := Option.bind_eq_some_iff.1 h
          cases h
          rfl
        · cases h
      · cases h
  · cases h

/-- Among the steps, the entries are those that the calls report. -/
theorem filter_allStepsOf (i : Instrumentation) (line : Option LineTrace.Recording)
    (calls : List (String × HookCall)) :
    (allStepsOf i line calls).filter (·.isEnter) = calls.filterMap (enterOf? i) := by
  induction calls generalizing line with
  | nil => cases line <;> rfl
  | cons c calls ih =>
    have hone : (stepsOf i line c).filter (·.isEnter) = (enterOf? i c).toList := by
      have hline : ∀ o : Option LineEvent,
          (o.map fun e => Step.line e.source e.line).toList.filter (·.isEnter) = [] := by
        intro o
        cases o <;> rfl
      rw [stepsOf, List.filter_append, hline, List.nil_append]
      cases hc : enterOf? i c with
      | none => rfl
      | some s => simp [isEnter_of_enterOf hc]
    rw [allStepsOf, List.filter_append, hone, ih, List.filterMap_cons]
    cases enterOf? i c <;> rfl

end Recording

end MethodTrace

/-! ### Both tracers -/

namespace Recordings

/-- The recordings of the two tracers, of those that the task has. -/
def traces (line : Option LineTrace.Recording) (method : Option MethodTrace.Recording) : Recordings :=
  ⟨(line.map .lineTrace).toList ++ (method.map .methodTrace).toList, []⟩

/-- The method trace is told of lines if the task has both tracers. -/
def Linked (line : Option LineTrace.Recording) (method : Option MethodTrace.Recording) : Prop :=
  ∀ r ∈ line, r.subscribers = (method.map fun _ => .methodTrace).toList ∧ r.arguments.runLineLimit = Option.none

open MethodTrace.Recording (stepsOf allStepsOf)

variable {line : Option LineTrace.Recording} {method : Option MethodTrace.Recording}

theorem id_ne : MethodTrace.id ≠ LineTrace.id := by decide

/-- A line that is reached is counted and told, or continues the one before. -/
theorem onHook_line {r : LineTrace.Recording} (h : Linked (some r) method) (call : HookCall) :
    ((traces (some r) method).onHook LineTrace.id call 0).2 =
      traces (some (r.afterCall (LineTrace.id, call)))
        (method.map fun q => q.recordAll (stepsOf q.instrumentation (some r) (LineTrace.id, call))) := by
  obtain ⟨hsub, hlimit⟩ := h r rfl
  have henter : ∀ i, MethodTrace.Recording.enterOf? i (LineTrace.id, call) = Option.none :=
    fun i => if_neg id_ne.symm
  have hline : LineTrace.Recording.lineOf? (LineTrace.id, call) = LineTrace.Recording.line? call 0 :=
    if_pos rfl
  cases hp : LineTrace.Recording.line? call 0 with
  | none =>
    cases method <;>
      simp [Recordings.onHook, callFirst, traces, Recording.id, Recording.onHook, hp, hline, Reaction.goOn,
        LineTrace.Recording.afterCall, stepsOf, LineTrace.Recording.counted?, henter,
        MethodTrace.Recording.recordAll]
  | some p =>
    rcases (LineTrace.Recording.onLine_of_no_limit hlimit p.1 p.2).1 with hc | hc
    · cases method <;>
        simp [Recordings.onHook, callFirst, traces, Recording.id, Recording.onHook, hp, hline, Reaction.goOn,
          LineTrace.Recording.afterCall, stepsOf, LineTrace.Recording.counted?, henter,
          MethodTrace.Recording.recordAll, Recording.onLine, hc]
    · have hsub' : (r.onLine p.1 p.2).2.subscribers = r.subscribers := rfl
      cases method <;>
        simp [Recordings.onHook, callFirst, traces, Recording.id, Recording.onHook, hp, hline,
          LineTrace.Recording.afterCall, stepsOf, LineTrace.Recording.counted?, henter,
          MethodTrace.Recording.recordAll, Recording.onLine, hc, hsub', hsub, tell, Recording.tellLine,
          MethodTrace.Recording.onLine]

/-- A call into another tracer than the line trace. -/
theorem onHook_method (line : Option LineTrace.Recording) (method : Option MethodTrace.Recording)
    {id : String} (hid : id ≠ LineTrace.id) (call : HookCall) :
    ((traces line method).onHook id call 0).2 =
      traces line (method.map fun q => q.recordAll (stepsOf q.instrumentation line (id, call))) := by
  have hline : LineTrace.Recording.lineOf? (id, call) = Option.none := if_neg hid
  have hskip : ¬ LineTrace.id = id := Ne.symm hid
  by_cases hmethod : id = MethodTrace.id
  · subst hmethod
    have henter : ∀ i, MethodTrace.Recording.enterOf? i (MethodTrace.id, call) =
        MethodTrace.Recording.enter? i call := fun i => if_pos rfl
    have hcall : ∀ q : MethodTrace.Recording, q.onHook call =
        q.recordAll (MethodTrace.Recording.enter? q.instrumentation call).toList := by
      intro q
      unfold MethodTrace.Recording.onHook
      cases MethodTrace.Recording.enter? q.instrumentation call <;> rfl
    cases line <;> cases method <;>
      simp [Recordings.onHook, callFirst, traces, Recording.id, Recording.onHook, hline, hskip,
        Reaction.goOn, stepsOf, LineTrace.Recording.counted?, henter, hcall]
  · have henter : ∀ i, MethodTrace.Recording.enterOf? i (id, call) = Option.none := fun i => if_neg hmethod
    have hskip' : ¬ MethodTrace.id = id := Ne.symm hmethod
    cases line <;> cases method <;>
      simp [Recordings.onHook, callFirst, traces, Recording.id, hline, hskip, hskip',
        Reaction.goOn, stepsOf, LineTrace.Recording.counted?, henter, MethodTrace.Recording.recordAll]

/-- **A call** changes the two recordings. -/
theorem onHook_traces (h : Linked line method) (c : String × HookCall) :
    ((traces line method).onHook c.1 c.2 0).2 =
      traces (line.map (·.afterCall c))
        (method.map fun q => q.recordAll (stepsOf q.instrumentation line c)) := by
  obtain ⟨id, call⟩ := c
  by_cases hid : id = LineTrace.id
  · subst hid
    cases line with
    | some r => exact onHook_line h call
    | none =>
      have henter : ∀ i, MethodTrace.Recording.enterOf? i (LineTrace.id, call) = Option.none :=
        fun i => if_neg id_ne.symm
      cases method <;>
        simp [Recordings.onHook, callFirst, traces, Recording.id, id_ne, Reaction.goOn, stepsOf, henter,
          MethodTrace.Recording.recordAll]
  · have hsame : line.map (·.afterCall (id, call)) = line := by
      cases line with
      | none => rfl
      | some r => simp [LineTrace.Recording.afterCall, LineTrace.Recording.lineOf?, hid]
    rw [hsame]
    exact onHook_method line method hid call

theorem Linked.afterCall (h : Linked line method) (c : String × HookCall)
    (f : MethodTrace.Recording → MethodTrace.Recording) :
    Linked (line.map (·.afterCall c)) (method.map f) := by
  intro r' hr'
  obtain ⟨r, hr, rfl⟩ := Option.map_eq_some_iff.1 hr'
  obtain ⟨hsub, hlimit⟩ := h r hr
  have hsame : (r.afterCall c).subscribers = r.subscribers ∧ (r.afterCall c).arguments = r.arguments := by
    unfold LineTrace.Recording.afterCall
    split <;> exact ⟨rfl, rfl⟩
  rw [hsame.1, hsame.2, hsub]
  exact ⟨by cases method <;> rfl, hlimit⟩

/-- **Calls, one after the other**, change the recording of each tracer. -/
theorem after_traces (h : Linked line method) (calls : List (String × HookCall)) :
    (traces line method).after calls = traces (line.map (·.afterCalls calls))
      (method.map fun q => q.recordAll (allStepsOf q.instrumentation line calls)) := by
  induction calls generalizing line method with
  | nil =>
    have hline : line.map (·.afterCalls []) = line := by cases line <;> rfl
    have hmethod : (method.map fun q => q.recordAll (allStepsOf q.instrumentation line [])) = method := by
      cases method <;> cases line <;> rfl
    rw [hline, hmethod]
    rfl
  | cons c calls ih =>
    have hafter : (traces line method).after (c :: calls) =
        (((traces line method).onHook c.1 c.2 0).2).after calls := rfl
    rw [hafter, onHook_traces h, ih (h.afterCall c _)]
    cases line <;> cases method <;>
      simp [LineTrace.Recording.afterCalls, allStepsOf, MethodTrace.Recording.recordAll_append]

end Recordings

/-! ### What the line trace reports -/

namespace LineTrace.Recording

def eventsOf (calls : List (String × HookCall)) : List LineEvent :=
  calls.filterMap fun c => (lineOf? c).map (·.2)

/-- Every line counts, and the first ones are kept. -/
structure Keeps (a : Arguments) (events : List LineEvent) (r : Recording) : Prop where
  single : r.Single
  arguments : r.arguments = a
  steps : (r.lines 0).steps.toList = events.take a.recordedStepLimit
  linesRun : (r.lines 0).linesRun = events.length

theorem keeps_start (a : Arguments) (subscribers : List Subscriber) :
    Keeps a [] ⟨a, [], subscribers⟩ where
  single := single_start a subscribers
  arguments := rfl
  steps := by simp [lines, thread?, ThreadLines.start]
  linesRun := by simp [lines, thread?, ThreadLines.start]

theorem Keeps.report {a : Arguments} {events : List LineEvent} {r : Recording} (h : Keeps a events r) :
    r.report = ⟨a, events.take a.recordedStepLimit, events.length⟩ := by
  rw [h.single.report_eq, h.arguments, h.steps, h.linesRun]

/-- A line more. -/
theorem Keeps.onLine {a : Arguments} (hlimit : a.runLineLimit = none) (hcoalesce : a.coalesce = false)
    {events : List LineEvent} {r : Recording} (h : Keeps a events r) (line : LastLine) {e : LineEvent}
    (he : e.thread = 0) :
    (r.onLine line e).1 = .counted ∧ Keeps a (events ++ [e]) (r.onLine line e).2 := by
  have hreach : reach r.arguments (r.others 0) (r.lines 0) line e =
      (.counted, count a { r.lines 0 with last := some line } e) := by
    rw [h.arguments, reach, hcoalesce, Bool.false_and, if_neg Bool.false_ne_true, hlimit, reconcile, hlimit]
    rfl
  have hfst : (r.onLine line e).1 = .counted := by
    rw [onLine_eq, he, hreach]
  have hlines := r.lines_onLine line e
  rw [he, hreach] at hlines
  refine ⟨hfst, (h.single.onLine line he).1, by rw [arguments_onLine, h.arguments], ?_, ?_⟩
  · have hkept := h.single.kept
    rw [h.arguments, h.linesRun] at hkept
    rw [hlines, count]
    dsimp only
    split
    · next hroom =>
      have hall : events.length < a.recordedStepLimit := by omega
      rw [Array.toList_push, h.steps, List.take_of_length_le (by omega),
        List.take_of_length_le (by simpa using Nat.succ_le_of_lt hall)]
    · next hfull =>
      have hall : a.recordedStepLimit ≤ events.length := by omega
      rw [h.steps, List.take_append_of_le_length hall]
  · rw [hlines, count]
    dsimp only
    rw [h.linesRun, List.length_append]
    rfl

/-- **Every line counts** of calls into a line trace that neither coalesces nor has a limit. -/
theorem Keeps.afterCalls {a : Arguments} (hlimit : a.runLineLimit = none) (hcoalesce : a.coalesce = false)
    {events : List LineEvent} {r : Recording} (h : Keeps a events r) (calls : List (String × HookCall)) :
    Keeps a (events ++ eventsOf calls) (r.afterCalls calls) := by
  induction calls generalizing events r with
  | nil => exact (List.append_nil events).symm ▸ h
  | cons c calls ih =>
    cases hc : lineOf? c with
    | none =>
      have hsame : r.afterCall c = r := by rw [afterCall, hc]
      have hevents : eventsOf (c :: calls) = eventsOf calls := by simp [eventsOf, hc]
      have hcalls : r.afterCalls (c :: calls) = (r.afterCall c).afterCalls calls := rfl
      rw [hcalls, hsame, hevents]
      exact ih h
    | some p =>
      have hone : r.afterCall c = (r.onLine p.1 p.2).2 := by rw [afterCall, hc]
      have hevents : eventsOf (c :: calls) = p.2 :: eventsOf calls := by simp [eventsOf, hc]
      have hcalls : r.afterCalls (c :: calls) = (r.afterCall c).afterCalls calls := rfl
      rw [hcalls, hone, hevents, List.append_cons]
      exact ih (h.onLine hlimit hcoalesce p.1 (thread_lineOf hc)).2

/-- **What the line trace reports of calls.** -/
theorem report_afterCalls {a : Arguments} (hlimit : a.runLineLimit = none) (hcoalesce : a.coalesce = false)
    (subscribers : List Subscriber) (calls : List (String × HookCall)) :
    ((Recording.mk a [] subscribers).afterCalls calls).report =
      ⟨a, (eventsOf calls).take a.recordedStepLimit, (eventsOf calls).length⟩ :=
  ((keeps_start a subscribers).afterCalls hlimit hcoalesce calls).report

theorem afterCalls_filter (r : Recording) (calls : List (String × HookCall)) :
    r.afterCalls (calls.filter (·.1 == LineTrace.id)) = r.afterCalls calls := by
  induction calls generalizing r with
  | nil => rfl
  | cons c calls ih =>
    by_cases hc : c.1 = LineTrace.id
    · rw [List.filter_cons_of_pos (by simpa using hc)]
      exact ih _
    · have hsame : r.afterCall c = r := by rw [afterCall, lineOf?, if_neg hc]
      rw [List.filter_cons_of_neg (by simpa using hc), ih]
      show _ = (r.afterCall c).afterCalls calls
      rw [hsame]

/-- Who is told about lines makes no difference to what is reported. -/
theorem report_afterCalls_subscribers (a : Arguments) (threads : List ThreadLines)
    (l l' : List Subscriber) (calls : List (String × HookCall)) :
    ((Recording.mk a threads l).afterCalls calls).report =
      ((Recording.mk a threads l').afterCalls calls).report := by
  induction calls generalizing threads with
  | nil => rfl
  | cons c calls ih =>
    have hone : ∃ threads', ∀ l, (Recording.mk a threads l).afterCall c = ⟨a, threads', l⟩ := by
      cases hc : lineOf? c with
      | none => exact ⟨threads, fun l => by rw [afterCall, hc]⟩
      | some p =>
        refine ⟨((Recording.mk a threads l).onLine p.1 p.2).2.threads, fun l => ?_⟩
        rw [afterCall, hc]
        rfl
    obtain ⟨threads', hthreads⟩ := hone
    show (((Recording.mk a threads l).afterCall c).afterCalls calls).report =
      (((Recording.mk a threads l').afterCall c).afterCalls calls).report
    rw [hthreads, hthreads]
    exact ih threads'

end LineTrace.Recording

/-! ### What the method trace is told of lines -/

namespace MethodTrace

def Step.line? : Step → Option (String × UInt32)
  | .line source n => some (source, n)
  | .enter _ _ _ => none

theorem Recording.line_of_enterOf {i : Instrumentation} {c : String × HookCall} {s : Step}
    (h : enterOf? i c = some s) : s.line? = none := by
  have henter := isEnter_of_enterOf h
  cases s with
  | line source n => cases henter
  | enter _ _ _ => rfl

/-- Among the steps, the lines are those that the calls report, if every one counts. -/
theorem Recording.lines_allStepsOf (i : Instrumentation) {a : LineTrace.Arguments}
    (hlimit : a.runLineLimit = none) (hcoalesce : a.coalesce = false) {events : List LineEvent}
    {r : LineTrace.Recording} (h : r.Keeps a events) (calls : List (String × HookCall)) :
    (allStepsOf i (some r) calls).filterMap (·.line?) =
      (LineTrace.Recording.eventsOf calls).map fun e => (e.source, e.line) := by
  induction calls generalizing events r with
  | nil => rfl
  | cons c calls ih =>
    have hsteps : (stepsOf i (some r) c).filterMap (·.line?) =
        ((LineTrace.Recording.lineOf? c).map fun p => (p.2.source, p.2.line)).toList := by
      have henter : (enterOf? i c).toList.filterMap (·.line?) = [] := by
        cases hc : enterOf? i c with
        | none => rfl
        | some s => simp [line_of_enterOf hc]
      rw [stepsOf, List.filterMap_append, henter, List.append_nil]
      cases hc : LineTrace.Recording.lineOf? c with
      | none => simp [LineTrace.Recording.counted?, hc]
      | some p =>
        have hcounted := (h.onLine hlimit hcoalesce p.1 (LineTrace.Recording.thread_lineOf hc)).1
        simp [LineTrace.Recording.counted?, hc, hcounted, Step.line?]
    have hkeeps := h.afterCalls hlimit hcoalesce [c]
    have hrest := ih hkeeps
    rw [allStepsOf, List.filterMap_append, hsteps]
    refine (congrArg _ hrest).trans ?_
    cases hc : LineTrace.Recording.lineOf? c <;> simp [LineTrace.Recording.eventsOf, hc]

end MethodTrace

/-! ### Starting -/

namespace Recordings

/-- **Without extra threads the tracers start**, linked to each other. -/
theorem exists_start {line : Option LineTrace.Instrumentation} {method : Option MethodTrace.Instrumentation}
    (hline : ∀ i ∈ line, i.arguments.runLineLimit = Option.none)
    (hmethod : ∀ i ∈ method, i.withLines = line.isSome) :
    ∃ subscribers, start 0 (Instrumentation.traces line method) =
        .ok (traces (line.map fun i => ⟨i.arguments, [], subscribers⟩) (method.map fun i => ⟨i, #[]⟩)) ∧
      Linked (line.map fun i => ⟨i.arguments, [], subscribers⟩) (method.map fun i => ⟨i, #[]⟩) := by
  cases line with
  | none =>
    refine ⟨[], ?_, by simp [Linked]⟩
    cases method with
    | none => rfl
    | some j =>
      have hentries : (Instrumentation.traces Option.none (some j)).mapM (Recording.start 0) =
          .ok [.methodTrace ⟨j, #[]⟩] := rfl
      have hj : j.withLines = false := hmethod j rfl
      rw [start, hentries]
      simp [bind, Except.bind, Recording.wantsLines, hj, traces]
  | some i =>
    cases method with
    | none => exact ⟨[], rfl, by simpa [Linked] using hline i rfl⟩
    | some j =>
      have hentries : (Instrumentation.traces (some i) (some j)).mapM (Recording.start 0) =
          .ok [.lineTrace (.start i.arguments), .methodTrace ⟨j, #[]⟩] := rfl
      have hj : j.withLines = true := hmethod j rfl
      refine ⟨[.methodTrace], ?_, by simpa [Linked] using hline i rfl⟩
      rw [start, hentries]
      simp [bind, Except.bind, Recording.wantsLines, hj, traces, subscribe, Recording.subscribe,
        LineTrace.Recording.subscribe, LineTrace.Recording.start]

theorem results_traces (line : Option LineTrace.Recording) (method : Option MethodTrace.Recording) :
    (traces line method).results = (line.map fun r => (LineTrace.id, r.report.toJson)).toList ++
      (method.map fun r => (MethodTrace.id, r.report.toJson)).toList := by
  have hlt : ¬ MethodTrace.id < LineTrace.id := by decide
  have hne : ¬ MethodTrace.id = LineTrace.id := by decide
  cases line <;> cases method <;>
    simp [results, traces, Json.insertField, Recording.id, Recording.report, hlt, hne]

end Recordings

end Confine
