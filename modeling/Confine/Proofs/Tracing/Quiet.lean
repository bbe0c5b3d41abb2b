import Confine.Tracing.Tracer
import Confine.Proofs.Tracing.Woven

/-!
# Tracers that never interrupt

The method trace never interrupts a program, and the line trace does so only at a limit of lines.

* `Recordings.Quiet.onHook` — among quiet tracers a call only records, and they stay quiet;
* `Recordings.quiet_start` — the two tracers start, without extra threads, and are quiet if there is no limit.
-/

namespace Confine

/-- The tracer never interrupts the program. -/
def Recording.Quiet : Recording → Prop
  | .lineTrace r => r.arguments.runLineLimit = none
  | .methodTrace _ => True
  | .probe _ => False

/-- No tracer of the task interrupts the program. -/
def Recordings.Quiet (rs : Recordings) : Prop := ∀ r ∈ rs.entries, r.Quiet

/-! ### Calls -/

namespace LineTrace.Recording

theorem onLine_of_no_limit {r : Recording} (h : r.arguments.runLineLimit = none) (line : LastLine)
    (e : LineEvent) :
    ((r.onLine line e).1 = .coalesced ∨ (r.onLine line e).1 = .counted) ∧
      (r.onLine line e).2.arguments = r.arguments := by
  refine ⟨?_, rfl⟩
  simp only [onLine, reach, h]
  split
  · exact .inl rfl
  · exact .inr rfl

end LineTrace.Recording

namespace Recording

theorem Quiet.onHook {r : Recording} (h : r.Quiet) (call : HookCall) (thread : Nat) :
    (r.onHook call thread).1.signal = none ∧ (r.onHook call thread).2.Quiet := by
  cases r with
  | probe r => cases h
  | methodTrace r => exact ⟨rfl, trivial⟩
  | lineTrace r =>
    simp only [Recording.onHook]
    split
    · next line e _ =>
      obtain ⟨hreached, harguments⟩ := LineTrace.Recording.onLine_of_no_limit h line e
      have hquiet : (r.onLine line e).2.arguments.runLineLimit = none := harguments ▸ h
      rcases hreached with hc | hc
      · simp only [Recording.onLine, hc]
        exact ⟨rfl, hquiet⟩
      · simp only [Recording.onLine, hc]
        exact ⟨trivial, hquiet⟩
    · exact ⟨rfl, h⟩

theorem Quiet.tellLine {r : Recording} (h : r.Quiet) (e : LineEvent) : (r.tellLine e).Quiet := by
  cases r <;> exact h

theorem Quiet.subscribe {r : Recording} (h : r.Quiet) (s : LineTrace.Subscriber) :
    (r.subscribe s).Quiet := by
  cases r <;> exact h

end Recording

namespace Recordings

variable {rs : Recordings}

section Invariant

variable {P : Recording → Prop} {Q : Option HookSignal → Prop} {call : HookCall} {thread : Nat}

theorem callFirst_invariant
    (hhook : ∀ r : Recording, P r → Q (r.onHook call thread).1.signal ∧ P (r.onHook call thread).2)
    (id : String) {before entries : List Recording} (hb : ∀ r ∈ before, P r)
    (he : ∀ r ∈ entries, P r) :
    (∀ reaction ∈ (callFirst id call thread before entries).1, Q reaction.signal) ∧
      ∀ r ∈ (callFirst id call thread before entries).2, P r := by
  induction entries generalizing before with
  | nil => simpa [callFirst] using hb
  | cons r rest ih =>
    rw [List.forall_mem_cons] at he
    unfold callFirst
    split
    · obtain ⟨hsignal, hr⟩ := hhook r he.1
      refine ⟨by simpa using hsignal, fun r' hr' => ?_⟩
      simp only [List.reverseAux_eq, List.mem_append, List.mem_reverse, List.mem_cons] at hr'
      rcases hr' with hr' | rfl | hr'
      · exact hb r' hr'
      · exact hr
      · exact he.2 r' hr'
    · exact ih (List.forall_mem_cons.2 ⟨he.1, hb⟩) he.2

theorem tellAll_invariant (htell : ∀ (r : Recording) e, P r → P (r.tellLine e))
    (h : ∀ r ∈ rs.entries, P r) (e : LineEvent) (l : List LineTrace.Subscriber) :
    ∀ r ∈ (l.foldl (tell e) rs).entries, P r := by
  induction l generalizing rs with
  | nil => exact h
  | cons s l ih =>
    refine ih ?_
    cases s with
    | methodTrace =>
      intro r hr
      obtain ⟨r', hr', rfl⟩ := List.mem_map.1 hr
      exact htell r' e (h r' hr')
    | collector name => exact h

/-- What tracers keep when they are called and when they are told about lines is kept by a call into any of them, and what
is true of their signals is true of its signal. -/
theorem onHook_invariant (hnone : Q Option.none)
    (hhook : ∀ r : Recording, P r → Q (r.onHook call thread).1.signal ∧ P (r.onHook call thread).2)
    (htell : ∀ (r : Recording) e, P r → P (r.tellLine e)) (h : ∀ r ∈ rs.entries, P r) (id : String) :
    Q (rs.onHook id call thread).1 ∧ ∀ r ∈ (rs.onHook id call thread).2.entries, P r := by
  obtain ⟨hsignal, hentries⟩ := callFirst_invariant hhook id (List.forall_mem_nil P) h
  have hgetD : Q ((callFirst id call thread [] rs.entries).1.getD .goOn).signal := by
    cases hr : (callFirst id call thread [] rs.entries).1 with
    | none => exact hnone
    | some reaction => exact hsignal reaction hr
  unfold Recordings.onHook
  dsimp only
  split
  · exact ⟨hgetD, tellAll_invariant htell hentries _ _⟩
  · exact ⟨hgetD, hentries⟩

end Invariant

/-- **Among quiet tracers a call only records.** -/
theorem Quiet.onHook (h : rs.Quiet) (id : String) (call : HookCall) (thread : Nat) :
    (rs.onHook id call thread).1 = Option.none ∧ (rs.onHook id call thread).2.Quiet :=
  onHook_invariant (Q := (· = Option.none)) rfl (fun _ hr => hr.onHook call thread)
    (fun _ e hr => hr.tellLine e) h id

/-! ### Starting -/

theorem Quiet.subscribe (h : rs.Quiet) (s : LineTrace.Subscriber) : (rs.subscribe s).Quiet := by
  intro r hr
  obtain ⟨r', hr', rfl⟩ := List.mem_map.1 hr
  exact (h r' hr').subscribe s

theorem quiet_mapM_start {line : Option LineTrace.Instrumentation}
    (hline : ∀ i ∈ line, i.arguments.runLineLimit = Option.none)
    (method : Option MethodTrace.Instrumentation) :
    ∃ entries, (Instrumentation.traces line method).mapM (Recording.start 0) = .ok entries ∧
      ∀ r ∈ entries, r.Quiet := by
  cases line with
  | none =>
    cases method with
    | none => exact ⟨[], rfl, by simp⟩
    | some j => exact ⟨[.methodTrace ⟨j, #[]⟩], rfl, by simp [Recording.Quiet]⟩
  | some i =>
    have hi : (Recording.lineTrace (.start i.arguments)).Quiet := hline i rfl
    cases method with
    | none => exact ⟨[.lineTrace (.start i.arguments)], rfl, by simpa using hi⟩
    | some j =>
      exact ⟨[.lineTrace (.start i.arguments), .methodTrace ⟨j, #[]⟩], rfl,
        List.forall_mem_cons.2 ⟨hi, by simp [Recording.Quiet]⟩⟩

/-- **Without extra threads the two tracers start**, and they are quiet if there is no limit. -/
theorem quiet_start {line : Option LineTrace.Instrumentation}
    (hline : ∀ i ∈ line, i.arguments.runLineLimit = Option.none)
    (method : Option MethodTrace.Instrumentation) :
    ∃ rs, start 0 (Instrumentation.traces line method) = .ok rs ∧ rs.Quiet := by
  obtain ⟨entries, he, hquiet⟩ := quiet_mapM_start hline method
  have hrs : Quiet ⟨entries, []⟩ := hquiet
  refine ⟨_, by rw [start, he]; rfl, ?_⟩
  split
  · exact hrs.subscribe _
  · exact hrs

end Recordings

end Confine
